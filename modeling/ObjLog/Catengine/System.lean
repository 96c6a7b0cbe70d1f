import Mathlib.Logic.Function.Basic
import ObjLog.Catengine.Acquire
import ObjLog.Catengine.Calls
/-!
# Any number of engines on one partition

Each process runs one `Initialize`, or one `OpenWriter` and then calls on the
session it returned, under a writer id of its own. A step of the system is one
step of one process: it starts a call, performs one operation on the store, or
returns. Nothing orders the processes, and a process may stop for good at any
point.

`Reaches.ok` is the run lemma: in every reachable state the log is linear and
every process is in order (`ProcOk`). What a process may rely on is what every
other guarantees, so one step of a process keeps its own order by the rule for
the program it runs, and that of the others by `Moves.rely`.
-/

namespace ObjLog.Catengine

open Lib Env Catformat Pmeta Blobstore

variable {mode : Mode} {σ : State}

/-- What a process is doing. `done` holds the finished calls of its session, oldest first. -/
inductive Mode where
  | idle
  | initializing (prog : Effects (Except Err (PartitionHead × Bool)))
  | opening (opts : EngineOptions) (prog : Effects (Except Err Session))
  | closed
  | ready (opts : EngineOptions) (session : Session) (done : List Record)
  | calling (opts : EngineOptions) (call : Call) (before : Session) (start : Nat) (cas failed : Bool)
      (prog : Effects (Except Err Reply × Session)) (done : List Record)

/-- The session, as it was before the current call. -/
def Mode.session : Mode → Option Session
  | .ready _ session _ => some session
  | .calling _ _ before _ _ _ _ _ => some before
  | _ => none

def Mode.done : Mode → List Record
  | .ready _ _ done => done
  | .calling _ _ _ _ _ _ _ done => done
  | _ => []

structure State where
  world : World
  procs : Pid → Mode

variable [Hashes]

/-- One step of process `i`. -/
inductive Local (config : Config) (i : Pid) (w : World) : Mode → World → Mode → Prop
  | startInit (next : UInt64) : Local config i w .idle w (.initializing (initializePartition config next).run)
  | initOp {op : Op} {k : op.Answer → Effects (Except Err (PartitionHead × Bool))} {a : op.Answer} {w' : World} :
      Act config (.initializer i) w op a w' →
      Local config i w (.initializing (.op op k)) w' (.initializing (k a))
  | initDone {r : Except Err (PartitionHead × Bool)} : Local config i w (.initializing (.ret r)) w .closed
  | startOpen (opts : EngineOptions) :
      Local config i w .idle w (.opening opts (openWriter config opts i).run)
  | openOp {opts : EngineOptions} {op : Op} {k : op.Answer → Effects (Except Err Session)} {a : op.Answer} {w' : World} :
      Act config (.opener i) w op a w' →
      Local config i w (.opening opts (.op op k)) w' (.opening opts (k a))
  | opened {opts : EngineOptions} {s : Session} :
      Local config i w (.opening opts (.ret (.ok s))) w (.ready opts s [])
  | openFailed {opts : EngineOptions} {e : Err} : Local config i w (.opening opts (.ret (.error e))) w .closed
  | startCall {opts : EngineOptions} {s : Session} {done : List Record} (call : Call) :
      Local config i w (.ready opts s done) w
        (.calling opts call s w.log.length false false ((call.run config opts).run.run s) done)
  | callOp {opts : EngineOptions} {call : Call} {before : Session} {start : Nat} {cas failed : Bool} {op : Op}
      {k : op.Answer → Effects (Except Err Reply × Session)} {done : List Record} {a : op.Answer} {w' : World} :
      Act config (.session i before.writerEpoch) w op a w' →
      Local config i w (.calling opts call before start cas failed (.op op k) done) w'
        (.calling opts call before start (cas || isCas op) (failed || failedRead config op a) (k a) done)
  | returned {opts : EngineOptions} {call : Call} {before after : Session} {start : Nat} {cas failed : Bool}
      {reply : Except Err Reply} {done : List Record} :
      Local config i w (.calling opts call before start cas failed (.ret (reply, after)) done) w
        (.ready opts after (done ++ [⟨call, before, start, reply, after, w.log.length, cas, failed⟩]))

/-- The states of a partition that no process has touched yet, and all that follow. -/
inductive Reaches (config : Config) : State → Prop
  | start (pages : Pages) : Reaches config ⟨⟨[], pages⟩, fun _ => .idle⟩
  | step {σ : State} {i : Pid} {w : World} {mode : Mode} : Reaches config σ →
      Local config i σ.world (σ.procs i) w mode → Reaches config ⟨w, Function.update σ.procs i mode⟩

variable {config : Config} {i : Pid} {a b : Nat} {w w' : World} {s s' : Session} {r : Record}
  {rs done : List Record}

/-! ## The calls of a session -/

/-- The process committed none of the versions from `a` on, before `b`. -/
def Idle (i : Pid) (w : World) (a b : Nat) : Prop :=
  ∀ (k : Nat) c, a ≤ k → k < b → w.log[k]? = some c → c.author.pid ≠ i

/-- The versions the process committed from `a` on, before `b`, during a call on `s`. -/
def During (config : Config) (i : Pid) (w : World) (s : Session) (a b : Nat) : Prop :=
  ∀ (k : Nat) x y, a ≤ k + 1 → k + 1 < b → w.log[k]? = some x → w.log[k + 1]? = some y → y.author.pid = i →
    s.Allows (x.head config) (y.head config)

/-- One call after the other leads from the session `s` at version `a` to `s'` at version `b`. Between the
calls the process commits nothing. -/
def Serves (config : Config) (i : Pid) (w : World) (a : Nat) (s : Session) : List Record → Nat → Session → Prop
  | [], b, s' => s' = s ∧ a ≤ b ∧ Idle i w a b
  | r :: rs, b, s' => r.before = s ∧ a ≤ r.start ∧ Idle i w a r.start ∧ r.start ≤ r.stop ∧
      During config i w s r.start r.stop ∧ Told config i w r ∧ Serves config i w r.stop r.after rs b s'

theorem Serves.bounds (h : Serves config i w a s rs b s') : a ≤ b ∧ ∀ r ∈ rs, a ≤ r.start ∧ r.start ≤ r.stop ∧ r.stop ≤ b := by
  induction rs generalizing a s with
  | nil => exact ⟨h.2.1, by simp⟩
  | cons r rs ih =>
    obtain ⟨_, hle, _, hle', _, _, hrest⟩ := h
    obtain ⟨hb, hrs⟩ := ih hrest
    have har := Nat.le_trans hle hle'
    refine ⟨Nat.le_trans har hb, fun x hx => ?_⟩
    rcases List.mem_cons.1 hx with rfl | hx
    · exact ⟨hle, hle', hb⟩
    · obtain ⟨h₁, h₂, h₃⟩ := hrs x hx
      exact ⟨Nat.le_trans har h₁, h₂, h₃⟩

theorem Idle.onward (h : Idle i w a b) (ho : Onward config w w') (hb : b ≤ w.log.length) : Idle i w' a b :=
  fun k c hk hkb hc => h k c hk hkb (ho.back (Nat.lt_of_lt_of_le hkb hb) hc)

theorem During.onward (h : During config i w s a b) (ho : Onward config w w') (hb : b ≤ w.log.length) :
    During config i w' s a b := by
  intro k x y hk hkb hx hy
  have hlt := Nat.lt_of_lt_of_le hkb hb
  exact h k x y hk hkb (ho.back (Nat.lt_of_succ_lt hlt) hx) (ho.back hlt hy)

/-- The past does not change. -/
theorem Serves.onward (h : Serves config i w a s rs b s') (ho : Onward config w w') (hb : b ≤ w.log.length) :
    Serves config i w' a s rs b s' := by
  induction rs generalizing a s with
  | nil => exact ⟨h.1, h.2.1, h.2.2.onward ho hb⟩
  | cons r rs ih =>
    obtain ⟨hs, hle, hidle, hle', hduring, htold, hrest⟩ := h
    have hstop := Nat.le_trans hrest.bounds.1 hb
    exact ⟨hs, hle, hidle.onward ho (Nat.le_trans hle' hstop), hle', hduring.onward ho hstop,
      htold.onward ho hstop hle', ih hrest⟩

/-- The others go on. -/
theorem Serves.extend (h : Serves config i w a s rs b s') {b' : Nat} (hb : b ≤ b') (hidle : Idle i w b b') :
    Serves config i w a s rs b' s' := by
  induction rs generalizing a s with
  | nil =>
    refine ⟨h.1, Nat.le_trans h.2.1 hb, fun k c hk hkb hc => ?_⟩
    rcases Nat.lt_or_ge k b with hlt | hge
    · exact h.2.2 k c hk hlt hc
    · exact hidle k c hge hkb hc
  | cons r rs ih =>
    obtain ⟨hs, hle, hi, hle', hduring, htold, hrest⟩ := h
    exact ⟨hs, hle, hi, hle', hduring, htold, ih hrest⟩

theorem Rely.idle (h : Rely config i w w') : Idle i w' w.log.length w'.log.length :=
  fun k c hk _ hc => h.untouched k c hk hc

theorem Serves.rely (h : Serves config i w a s rs w.log.length s') (hr : Rely config i w w') :
    Serves config i w' a s rs w'.log.length s' :=
  (h.onward hr.onward (Nat.le_refl _)).extend hr.length hr.idle

/-- One more call. -/
theorem Serves.snoc (h : Serves config i w a s rs b s') (hbefore : r.before = s') (hb : b = r.start)
    (hle : r.start ≤ r.stop) (hduring : During config i w s' r.start r.stop) (htold : Told config i w r) :
    Serves config i w a s (rs ++ [r]) r.stop r.after := by
  induction rs generalizing a s with
  | nil =>
    obtain ⟨rfl, hab, hidle⟩ := h
    subst hb
    exact ⟨hbefore, hab, hidle, hle, hduring, htold, rfl, Nat.le_refl _, fun k c hk hkb => absurd hk (Nat.not_le.2 hkb)⟩
  | cons x rs ih =>
    obtain ⟨hs, hax, hi, hle', hd, ht, hrest⟩ := h
    exact ⟨hs, hax, hi, hle', hd, ht, ih hrest⟩

/-- The calls after a given one. -/
theorem Serves.split {earlier later : List Record} (h : Serves config i w a s (earlier ++ r :: later) b s') :
    Told config i w r ∧ r.start ≤ r.stop ∧ Serves config i w r.stop r.after later b s' := by
  induction earlier generalizing a s with
  | nil =>
    obtain ⟨_, _, _, hle, _, ht, hrest⟩ := h
    exact ⟨ht, hle, hrest⟩
  | cons x rs ih =>
    obtain ⟨_, _, _, _, _, _, hrest⟩ := h
    exact ih hrest

/-- Some of the calls, and the rest. -/
theorem Serves.append {rs' : List Record} (h : Serves config i w a s (rs ++ rs') b s') :
    ∃ m t, Serves config i w a s rs m t ∧ Serves config i w m t rs' b s' := by
  induction rs generalizing a s with
  | nil => exact ⟨a, s, ⟨rfl, Nat.le_refl _, fun k c hk hkb => absurd hk (Nat.not_le.2 hkb)⟩, h⟩
  | cons x rs ih =>
    obtain ⟨hs, hax, hi, hle, hd, ht, hrest⟩ := h
    obtain ⟨m, t, hfirst, hsecond⟩ := ih hrest
    exact ⟨m, t, ⟨hs, hax, hi, hle, hd, ht, hfirst⟩, hsecond⟩

/-- The epoch stays. -/
theorem Serves.epoch (h : Serves config i w a s rs b s') :
    s'.writerEpoch = s.writerEpoch ∧ ∀ r ∈ rs, r.before.writerEpoch = s.writerEpoch := by
  induction rs generalizing a s with
  | nil => exact ⟨by rw [h.1], by simp⟩
  | cons r rs ih =>
    obtain ⟨rfl, _, _, _, _, ht, hrest⟩ := h
    obtain ⟨hs', hrs⟩ := ih hrest
    refine ⟨hs'.trans ht.1, fun x hx => ?_⟩
    rcases List.mem_cons.1 hx with rfl | hx
    · rfl
    · exact (hrs x hx).trans ht.1

/-! ## Every process in order -/

/-- What holds of process `i` between any two steps of the system. -/
def ProcOk (config : Config) (i : Pid) (w : World) : Mode → Prop
  | .idle => Untouched i w 0
  | .initializing prog => ∃ cas failed,
      (env config (.initializer i) fun _ _ => True).wp (Env.outcome (fun _ _ => True) fun _ _ => True) prog
        ⟨w, cas, failed⟩
  | .opening _ prog => ∃ cas failed,
      (env config (.opener i) fun _ _ => True).wp
        (Env.outcome (fun s v => SessionOk config i v.world s) fun _ _ => True) prog ⟨w, cas, failed⟩
  | .closed => True
  | .ready _ s done => SessionOk config i w s ∧ ∃ a s₀, Serves config i w a s₀ done w.log.length s
  | .calling _ call before start cas failed prog done =>
      (env config (.session i before.writerEpoch) before.Allows).wp
        (fun r v => SessionOk config i v.world r.2 ∧
          Told config i v.world (v.record call before start r.1 r.2)) prog ⟨w, cas, failed⟩ ∧
      (∃ a s₀, Serves config i w a s₀ done start before) ∧ start ≤ w.log.length ∧
      During config i w before start w.log.length ∧
      ∃ (n : Nat) (c : Commit), w.log[n]? = some c ∧ c.author = .opener i ∧
        (c.head config).header.writerEpoch = before.writerEpoch

/-- A step of another process. -/
theorem ProcOk.rely (h : ProcOk config i w mode) (hr : Rely config i w w') : ProcOk config i w' mode := by
  cases mode with
  | idle => exact Untouched.rely h hr
  | initializing | opening =>
    obtain ⟨cas, failed, hwp⟩ := h
    exact ⟨cas, failed, wp_rely hwp ⟨hr, rfl, rfl⟩⟩
  | closed => trivial
  | ready opts s done =>
    obtain ⟨hok, a, s₀, hserves⟩ := h
    exact ⟨hok.rely hr, a, s₀, hserves.rely hr⟩
  | calling opts call before start cas failed prog done =>
    obtain ⟨hwp, ⟨a, s₀, hserves⟩, hstart, hduring, n, c, hc, hopener⟩ := h
    refine ⟨wp_rely hwp ⟨hr, rfl, rfl⟩, ⟨a, s₀, hserves.onward hr.onward hstart⟩, Nat.le_trans hstart hr.length, ?_,
      n, c, hr.kept hc, hopener⟩
    intro k x y hk hkb hx hy hi
    have hy' := hr.own hy hi
    have hlt := (List.getElem?_eq_some_iff.1 hy').1
    exact hduring k x y hk hlt (hr.onward.back (Nat.lt_of_succ_lt hlt) hx) hy' hi

theorem Moves.onward {author : Author} {allow : Head → Head → Prop} (h : Moves config author allow w w') :
    Onward config w w' := by
  refine ⟨h.linear, fun k d hd => ?_, h.pages⟩
  rcases h.log with hlog | ⟨c, hlog, _⟩
  · rw [hlog]
    exact hd
  · rw [hlog, List.getElem?_append_left (List.getElem?_eq_some_iff.1 hd).1]
    exact hd

/-- An operation of the current call. -/
theorem During.moves {author : Author} (h : During config i w s a w.log.length)
    (hm : Moves config author s.Allows w w') : During config i w' s a w'.log.length := by
  intro k x y hk _ hx hy hi
  rcases hm.log with hlog | ⟨c, hlog, _, hallow⟩
  · rw [hlog] at hx hy
    exact h k x y hk (List.getElem?_eq_some_iff.1 hy).1 hx hy hi
  · have hlen := (List.getElem?_eq_some_iff.1 hy).1
    rw [hlog, List.length_append, List.length_singleton] at hlen
    rcases Nat.lt_or_eq_of_le (Nat.le_of_lt_succ hlen) with hlt | heq
    · exact h k x y hk hlt (hm.onward.back (Nat.lt_of_succ_lt hlt) hx) (hm.onward.back hlt hy) hi
    · -- the version this operation added
      rw [hlog, heq, List.getElem?_concat_length] at hy
      obtain rfl := Option.some.inj hy
      refine hallow x ?_
      have hk' : k < w.log.length := heq ▸ Nat.lt_succ_self k
      rw [List.getLast?_eq_getElem?, ← heq]
      exact hm.onward.back hk' hx

/-- One step of a process: others may rely on it, and the process stays in order. -/
theorem Local.ok {mode' : Mode} (h : Local config i w mode w' mode')
    (hl : Linear config w) (hok : ProcOk config i w mode) :
    Linear config w' ∧ ProcOk config i w' mode' ∧ ∀ j, j ≠ i → Rely config j w w' := by
  -- an operation is a guaranteed step
  have hother : ∀ {author : Author} {allow : Head → Head → Prop}, author.pid = i → Moves config author allow w w' →
      Linear config w' ∧ ∀ j, j ≠ i → Rely config j w w' := fun ha hm =>
    ⟨hm.linear hl, fun j hj => hm.rely (by rw [ha]; exact hj.symm)⟩
  cases h with
  | startInit next =>
    exact ⟨hl, ⟨false, false, initializePartition_spec next⟩, fun _ _ => .refl _⟩
  | @initOp op k a _ ha | openOp ha =>
    obtain ⟨cas, failed, hwp⟩ := hok
    obtain ⟨hm, hwp'⟩ := wp_step hwp ⟨_, ha, rfl⟩
    obtain ⟨hl', hrely⟩ := hother rfl hm
    exact ⟨hl', ⟨_, _, hwp'⟩, hrely⟩
  | initDone | openFailed => exact ⟨hl, trivial, fun _ _ => .refl _⟩
  | startOpen opts =>
    exact ⟨hl, ⟨false, false, openWriter_spec hl hok⟩, fun _ _ => .refl _⟩
  | @opened opts s =>
    obtain ⟨cas, failed, hwp⟩ := hok
    have hdone := wp_done hwp
    have hs : SessionOk config i w s := hdone
    exact ⟨hl, ⟨hs, w.log.length, s, rfl, Nat.le_refl _, fun k c hk hkb => absurd hk (Nat.not_le.2 hkb)⟩,
      fun _ _ => .refl _⟩
  | @startCall opts s done call =>
    obtain ⟨hs, hserves⟩ := hok
    obtain ⟨n, c, _, hc, hopener⟩ := hs.acquired
    refine ⟨hl, ⟨?_, hserves, Nat.le_refl _, ?_, n, c, hc, hopener⟩, fun _ _ => .refl _⟩
    · refine wp_mono ?_ (Call.run_spec (v := ⟨w, false, false⟩) hs rfl call)
      rintro ⟨e | reply, s'⟩ v hv
      · exact hv
      · exact hv
    · exact fun k x y hk hkb => absurd hk (Nat.not_le.2 hkb)
  | callOp ha =>
    obtain ⟨hwp, ⟨a, s₀, hserves⟩, hstart, hduring, n, c, hc, hopener⟩ := hok
    obtain ⟨hm, hwp'⟩ := wp_step hwp ⟨_, ha, rfl⟩
    obtain ⟨hl', hrely⟩ := hother rfl hm
    exact ⟨hl', ⟨hwp', ⟨a, s₀, hserves.onward hm.onward hstart⟩, Nat.le_trans hstart hm.onward.length, hduring.moves hm,
      n, c, hm.onward.kept n c hc, hopener⟩, hrely⟩
  | returned =>
    obtain ⟨hwp, ⟨a, s₀, hserves⟩, hstart, hduring, _⟩ := hok
    obtain ⟨hs, htold⟩ := wp_done hwp
    exact ⟨hl, ⟨hs, a, s₀, hserves.snoc rfl rfl hstart hduring htold⟩, fun _ _ => .refl _⟩

/-- In every reachable state the log is linear and every process is in order. -/
theorem Reaches.ok (h : Reaches config σ) : Linear config σ.world ∧ ∀ i, ProcOk config i σ.world (σ.procs i) := by
  induction h with
  | start pages =>
    refine ⟨⟨fun c hc => (by cases hc), fun n b c hb => (by cases hb)⟩, fun i k c _ hc => ?_⟩
    cases hc
  | @step σ i w mode _ hstep ih =>
    obtain ⟨hl, hok, hrely⟩ := hstep.ok ih.1 (ih.2 i)
    refine ⟨hl, fun j => ?_⟩
    dsimp only
    by_cases hj : j = i
    · subst hj
      rw [Function.update_self]
      exact hok
    · rw [Function.update_of_ne hj]
      exact (ih.2 j).rely (hrely j hj)

/-! ## What the finished calls tell -/

theorem Serves.told (h : Serves config i w a s rs b s') (hr : r ∈ rs) :
    Told config i w r ∧ r.start ≤ r.stop ∧ r.stop ≤ b := by
  obtain ⟨earlier, later, rfl⟩ := List.append_of_mem hr
  obtain ⟨ht, hle, hrest⟩ := h.split
  exact ⟨ht, hle, hrest.bounds.1⟩

/-- The session of a process, its finished calls, and what it committed since the last of them. -/
structure Called (config : Config) (i : Pid) (w : World) (mode : Mode) (s : Session) (a : Nat) (s₀ : Session) (b : Nat) :
    Prop where
  serves : Serves config i w a s₀ mode.done b s
  le : b ≤ w.log.length
  during : During config i w s b w.log.length
  acquired : ∃ (n : Nat) (c : Commit), w.log[n]? = some c ∧ c.author = .opener i ∧
    (c.head config).header.writerEpoch = s.writerEpoch

theorem Reaches.called (h : Reaches config σ) (hs : (σ.procs i).session = some s) :
    ∃ a s₀ b, Called config i σ.world (σ.procs i) s a s₀ b := by
  have hok := h.ok.2 i
  generalize σ.procs i = mode at hs hok ⊢
  cases mode with
  | ready opts session done =>
    obtain rfl := Option.some.inj hs
    obtain ⟨hs, a, s₀, hserves⟩ := hok
    obtain ⟨n, c, _, hc, hopener⟩ := hs.acquired
    exact ⟨a, s₀, _, hserves, Nat.le_refl _, fun k x y hk hkb => absurd hk (Nat.not_le.2 hkb), n, c, hc, hopener⟩
  | calling opts call before start cas failed prog done =>
    obtain rfl := Option.some.inj hs
    obtain ⟨_, ⟨a, s₀, hserves⟩, hstart, hduring, hopener⟩ := hok
    exact ⟨a, s₀, start, hserves, hstart, hduring, hopener⟩
  | idle => cases hs
  | initializing prog => cases hs
  | opening opts prog => cases hs
  | closed => cases hs

omit [Hashes] in
/-- Only a session has finished calls. -/
theorem Mode.session_of_done (h : r ∈ mode.done) : ∃ s, mode.session = some s := by
  cases mode with
  | ready opts session done => exact ⟨session, rfl⟩
  | calling opts call before start cas failed prog done => exact ⟨before, rfl⟩
  | idle => cases h
  | initializing prog => cases h
  | opening opts prog => cases h
  | closed => cases h

/-- A finished call in a reachable state. -/
theorem Reaches.told (h : Reaches config σ) (hr : r ∈ (σ.procs i).done) :
    Told config i σ.world r ∧ r.start ≤ r.stop ∧ r.stop ≤ σ.world.log.length := by
  obtain ⟨s, hs⟩ := Mode.session_of_done hr
  obtain ⟨a, s₀, b, hc⟩ := h.called hs
  obtain ⟨ht, hle, hb⟩ := hc.serves.told hr
  exact ⟨ht, hle, Nat.le_trans hb hc.le⟩

end ObjLog.Catengine
