import ObjLog.Catengine.System
/-!
# Runs given by a schedule

A schedule names, step by step, the process that moves and what the store does
with its operation. `State.play` computes the state it leads to, and every such
state is reachable (`Reaches.play`).
-/

namespace ObjLog.Catengine

open Lib Catformat Pmeta Blobstore

/-- What the store does with one operation: serve it, lose the answer, or refuse it without effect. -/
inductive Fate where
  | served | lost | refused
deriving DecidableEq

inductive Event where
  | startInit (next : UInt64)
  | startOpen (opts : EngineOptions)
  | call (call : Call)
  | op (fate : Fate)
  | finish

/-- The error of the provider. -/
def noAnswer : Err := .bare .transport

theorem foreign_noAnswer : Foreign noAnswer := .inl rfl

section
variable [Hashes] {config : Config} {author : Author} {w : World} {i : Pid}

def respond (config : Config) (author : Author) (w : World) (fate : Fate) : (op : Op) → op.Answer × World
  | .ctxErr => (if fate = .served then none else some noAnswer, w)
  | .wait => (if fate = .served then none else some noAnswer, w)
  | .get key => (if fate = .served then w.read config key else .error noAnswer, w)
  | .put key body =>
    if fate = .refused ∨ key = config.headPath then (.error noAnswer, w)
    else match w.pages key with
      | none => (if fate = .served then .ok ⟨body, 1⟩ else .error noAnswer, w.write key body)
      | some other =>
        if fate = .lost then (.error noAnswer, w)
        else if other = body then (.ok ⟨body, 1⟩, w)
        else (.error (.of .immutableConflict key), w)
  | .cas key expected body =>
    if fate = .refused ∨ key ≠ config.headPath then (.error noAnswer, w)
    else if expected = w.log.length then
      (if fate = .served then .ok (⟨body, w.log.length + 1⟩, true) else .error noAnswer, w.commit author body)
    else (if fate = .served then .ok (w.current.getD ⟨[], 0⟩, false) else .error noAnswer, w)

theorem respond_act (fate : Fate) (op : Op) :
    Act config author w op (respond config author w fate op).1 (respond config author w fate op).2 := by
  have hf := foreign_noAnswer
  cases op with
  | ctxErr =>
    dsimp only [respond]
    split
    · exact .live
    · exact .ended hf
  | wait =>
    dsimp only [respond]
    split
    · exact .waited
    · exact .interrupted hf
  | get key =>
    dsimp only [respond]
    split
    · exact .read
    · exact .unread hf
  | put key body =>
    dsimp only [respond]
    split
    · exact .unput hf
    rename_i hfate
    have hkey : key ≠ config.headPath := fun h => hfate (.inr h)
    cases hpage : w.pages key with
    | none =>
      dsimp only
      split
      · exact .put hkey hpage
      · exact .putLost hf hkey hpage
    | some other =>
      dsimp only
      split
      · exact .unput hf
      split
      · rename_i hsame
        exact .putAgain hkey (hsame ▸ hpage)
      · rename_i hdiff
        exact .putConflict hkey hpage hdiff
  | cas key expected body =>
    dsimp only [respond]
    split
    · exact .unswapped hf
    rename_i hfate
    obtain rfl : key = config.headPath := Decidable.not_not.1 fun h => hfate (.inr h)
    split
    · rename_i heq
      dsimp only
      split
      · exact .swap heq
      · exact .swapLost hf heq
    · rename_i hne
      dsimp only
      split
      · exact .mismatch hne
      · exact .unswapped hf

/-- The step of one process that the event asks for; nothing where it does not apply. -/
def advance (config : Config) (i : Pid) (w : World) : Mode → Event → World × Mode
  | .idle, .startInit next => (w, .initializing (initializePartition config next).run)
  | .initializing (.op op k), .op fate =>
    ((respond config (.initializer i) w fate op).2, .initializing (k (respond config (.initializer i) w fate op).1))
  | .initializing (.ret _), .finish => (w, .closed)
  | .idle, .startOpen opts => (w, .opening opts (openWriter config opts i).run)
  | .opening opts (.op op k), .op fate =>
    ((respond config (.opener i) w fate op).2, .opening opts (k (respond config (.opener i) w fate op).1))
  | .opening opts (.ret (.ok s)), .finish => (w, .ready opts s [])
  | .opening _ (.ret (.error _)), .finish => (w, .closed)
  | .ready opts s done, .call call =>
    (w, .calling opts call s w.log.length false false ((call.run config opts).run.run s) done)
  | .calling opts call before start cas failed (.op op k) done, .op fate =>
    ((respond config (.session i before.writerEpoch) w fate op).2,
      .calling opts call before start (cas || isCas op)
        (failed || failedRead config op (respond config (.session i before.writerEpoch) w fate op).1)
        (k (respond config (.session i before.writerEpoch) w fate op).1) done)
  | .calling opts call before start cas failed (.ret (reply, after)) done, .finish =>
    (w, .ready opts after (done ++ [⟨call, before, start, reply, after, w.log.length, cas, failed⟩]))
  | mode, _ => (w, mode)

theorem advance_local (config : Config) (i : Pid) (w : World) (mode : Mode) (event : Event) :
    Local config i w mode (advance config i w mode event).1 (advance config i w mode event).2 ∨
      advance config i w mode event = (w, mode) := by
  unfold advance
  split
  · exact .inl (.startInit _)
  · exact .inl (.initOp (respond_act _ _))
  · exact .inl .initDone
  · exact .inl (.startOpen _)
  · exact .inl (.openOp (respond_act _ _))
  · exact .inl .opened
  · exact .inl .openFailed
  · exact .inl (.startCall _)
  · exact .inl (.callOp (respond_act _ _))
  · exact .inl .returned
  · exact .inr rfl

namespace State

def step (config : Config) (σ : State) (i : Pid) (event : Event) : State :=
  ⟨(advance config i σ.world (σ.procs i) event).1,
    Function.update σ.procs i (advance config i σ.world (σ.procs i) event).2⟩

def play (config : Config) (σ : State) (schedule : List (Pid × Event)) : State :=
  schedule.foldl (fun σ e => σ.step config e.1 e.2) σ

def empty : State := ⟨⟨[], fun _ => none⟩, fun _ => .idle⟩

end State

theorem Reaches.play {σ : State} (h : Reaches config σ) (schedule : List (Pid × Event)) :
    Reaches config (σ.play config schedule) := by
  induction schedule generalizing σ with
  | nil => exact h
  | cons e schedule ih =>
    refine ih ?_
    rcases advance_local config e.1 σ.world (σ.procs e.1) e.2 with hstep | hsame
    · exact .step h hstep
    · dsimp only [State.step]
      rw [hsame]
      dsimp only
      rw [Function.update_eq_self]
      exact h

end

/-! ## Two writers of a small partition -/

namespace Sample

/-- Leaves of four segments, so that short histories need no page. -/
def wide : Config := { config with leafLimit := 4 }

def options : EngineOptions := ⟨2, 2, by decide, by decide⟩

def first : Pid := id16

def second : Pid := ⟨List.replicate 16 2, by simp⟩

/-- The next operations of a process are served. -/
def serve (i : Pid) (n : Nat) : List (Pid × Event) := List.replicate n (i, .op .served)

/-- A process opens its session undisturbed. -/
def opens (i : Pid) : List (Pid × Event) := (i, .startOpen options) :: serve i 3 ++ [(i, .finish)]

def run (schedule : List (Pid × Event)) : State := letI := hashes; State.empty.play wide schedule

theorem reaches_run (schedule : List (Pid × Event)) : letI := hashes; Reaches wide (run schedule) :=
  letI := hashes
  (Reaches.start _).play schedule

/-- What the only finished call of process `i` and the store say. -/
def shows (σ : State) (i : Pid) (p : Record → World → Bool) : Bool :=
  match (σ.procs i).done with
  | [r] => p r σ.world
  | _ => false

theorem of_shows {σ : State} {i : Pid} {p : Record → World → Bool} (h : shows σ i p = true) :
    ∃ r, r ∈ (σ.procs i).done ∧ p r σ.world = true := by
  unfold shows at h
  split at h
  · rename_i r hdone
    exact ⟨r, by rw [hdone]; exact List.mem_cons_self, h⟩
  · cases h

end Sample

end ObjLog.Catengine
