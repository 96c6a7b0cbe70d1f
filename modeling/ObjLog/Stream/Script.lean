import ObjLog.Stream.Threads
/-!
# Runs that are given step by step

`respond` answers each operation in one way the upload allows, with the answers of
the provider taken from a script. A wait that could end either way ends with its
context.
-/

namespace ObjLog.Stream

open Lib Multipart

section
variable [Hashes]

/-- What the provider answers. -/
structure Script where
  put : PartJob → Except Err Receipt
  commit : CommitRequest → Except Err ObjectAttrs
  cleanup : Option Err

def respond (cfg : Settings) (script : Script) (i : Tid) (w : World) : (e : Op) → Option (e.Answer × World)
  | .lockWrite => if w.writeMu = none then some ((), { w with writeMu := some i }) else none
  | .unlockWrite => if w.writeMu = some i then some ((), { w with writeMu := none }) else none
  | .lockCommit => if w.commitMu = none then some ((), { w with commitMu := some i }) else none
  | .unlockCommit => if w.commitMu = some i then some ((), { w with commitMu := none }) else none
  | .ctxErr ctx => some (w.ctxs ctx, w)
  | .cause => some (w.cause, w)
  | .cancel cause => some ((), { w with cause := some (w.cause.getD cause) })
  | .writeState => some (w.writeStateError, w)
  | .failure => some (w.failure, w)
  | .firstErr => some (w.firstErr, w)
  | .recordFailure err => some ((w.recordFailure err).1, (w.recordFailure err).2)
  | .growth bytes => some (w.validateGrowth cfg bytes, w)
  | .acquire ctx =>
    match w.active with
    | some _ => some (.ok none, w)
    | none =>
      if (w.buffers w.nextPart).owner = .idle ∧ w.cause = none ∧ w.ctxs ctx = none then
        some (.ok (some w.nextPart), { w with
          active := some w.nextPart, buffers := setOwner w.buffers w.nextPart .active })
      else none
  | .copyIn data =>
    match w.active with
    | some b => some ((min (cfg.partSize - w.activeBytes) data.length,
        decide ((w.copyIn cfg b data).activeBytes = cfg.partSize)), w.copyIn cfg b data)
    | none => none
  | .enqueue _ =>
    match w.active with
    | none => some (.sent, w)
    | some b =>
      if w.activeBytes = 0 then some (.sent, w)
      else if w.jobs.length < max 1 cfg.queueSize then some (.sent, w.enqueueActive b) else none
  | .discard => some ((), w.discardAndClose)
  | .closeJobs => some ((), { w with jobsClosed := true })
  | .jobsClosed => some (w.jobsClosed, w)
  | .wrote data => some ((), { w with log := w.log ++ [.wrote data] })
  | .tore data => some ((), { w with log := w.log ++ [.tore data] })
  | .beginSeal => some (w.beginSeal.1, w.beginSeal.2)
  | .reopen => some (w.state, w.reopen)
  | .finishSeal => some ((w.finishSeal.state, w.firstErr), w.finishSeal)
  | .waitDone ctx =>
    match w.ctxs ctx with
    | some err => some (some err, w)
    | none => if w.done = true then some (none, w) else none
  | .startCommit ctx => some ((w.startCommit ctx).1, (w.startCommit ctx).2)
  | .commitBegin receipts => some (⟨receipts, w.offset, Hashes.sha256 w.hashed⟩,
      { w with log := w.log ++ [.commitBegan ⟨receipts, w.offset, Hashes.sha256 w.hashed⟩] })
  | .commitEnd request => some (script.commit request,
      { w with log := w.log ++ [.commitEnded request (script.commit request)] })
  | .offset => some (w.offset, w)
  | .settle result => some ((), w.settle result)
  | .claimAbort => some ((w.claimAbort i).1, (w.claimAbort i).2)
  | .cleanupBegin => some ((), { w with log := w.log ++ [.cleanupBegan] })
  | .cleanupEnd => some (script.cleanup, { w with log := w.log ++ [.cleanupEnded script.cleanup] })
  | .spawn backendErr indeterminate => some ((), { w with
      spawned := w.spawned ++ [⟨backendErr, indeterminate, false⟩]
      claimant := some (.finisher w.spawned.length) })
  | .waitChannel done ctx =>
    match w.ctxs ctx with
    | some err => some (some err, w)
    | none =>
      match done with
      | some d => if w.channels[d]? = some true then some (none, w) else none
      | none => none
  | .abortErr => some (w.abortErr, w)
  | .awaitDone => if w.done = true then some ((), w) else none
  | .finishAbort backendErr indeterminate =>
    match i with
    | .finisher n => some (w.abortDone, w.finishAbort n backendErr indeterminate)
    | _ => none
  | .closeChannel done =>
    match done with
    | some d => some ((), { w with channels := w.channels.set d true })
    | none => none
  | .recv =>
    match w.jobs with
    | job :: jobs => some (some job, { w with jobs := jobs, buffers := setOwner w.buffers job.buffer (.thread i) })
    | [] => if w.jobsClosed = true then some (none, w) else none
  | .newPart job => some (newPart job.number (w.contents job.buffer job.used), w)
  | .limiter => some (none, w)
  | .putBegin job => some (w.contents job.buffer job.used,
      { w with log := w.log ++ [.putBegan job.number (w.contents job.buffer job.used)] })
  | .putEnd job sent => some (script.put job,
      { w with log := w.log ++ [.putEnded job.number sent (w.contents job.buffer job.used) (script.put job)] })
  | .release b => some ((), { w with buffers := setOwner w.buffers b .idle })
  | .storeReceipt number receipt => some ((), w.storeReceipt number receipt)
  | .exit =>
    match i with
    | .worker n => some ((), { w with exited := n :: w.exited })
    | _ => none

theorem respond_act {cfg : Settings} {script : Script} {i : Tid} {w w' : World} {e : Op} {a : e.Answer}
    (h : respond cfg script i w e = some (a, w')) : Act cfg i w e a w' := by
  cases e with
  | lockWrite | unlockWrite | lockCommit | unlockCommit =>
    simp only [respond] at h
    split at h
    · rename_i hmu
      cases h
      first | exact .lockWrite hmu | exact .unlockWrite hmu | exact .lockCommit hmu | exact .unlockCommit hmu
    · cases h
  | awaitDone =>
    simp only [respond] at h
    split at h
    · rename_i hdone
      cases h
      exact .awaitDone hdone
    · cases h
  | acquire ctx =>
    simp only [respond] at h
    split at h
    · rename_i b hactive
      cases h
      exact .hasActive hactive
    · rename_i hnone
      split at h
      · rename_i hfree
        cases h
        exact .lease hnone hfree.1 hfree.2.1 hfree.2.2
      · cases h
  | copyIn data =>
    simp only [respond] at h
    split at h
    · rename_i b hactive
      cases h
      exact .copyIn hactive
    · cases h
  | enqueue ctx =>
    simp only [respond] at h
    split at h
    · rename_i hnone
      cases h
      exact .nothingToSend (.inl hnone)
    · rename_i b hactive
      split at h
      · rename_i hzero
        cases h
        exact .nothingToSend (.inr hzero)
      · rename_i hbytes
        split at h
        · rename_i hroom
          cases h
          exact .send hactive hbytes hroom
        · cases h
  | waitDone ctx =>
    simp only [respond] at h
    split at h
    · rename_i err hctx
      cases h
      exact .waitDoneCtx hctx
    · split at h
      · rename_i hdone
        cases h
        exact .waitDone hdone
      · cases h
  | waitChannel done ctx =>
    simp only [respond] at h
    split at h
    · rename_i err hctx
      cases h
      exact .waitChannelCtx hctx
    · split at h
      · split at h
        · rename_i hclosed
          cases h
          exact .waitChannel hclosed
        · cases h
      · cases h
  | finishAbort backendErr indeterminate =>
    simp only [respond] at h
    split at h
    · cases h
      exact .finishAbort rfl
    · cases h
  | closeChannel done =>
    simp only [respond] at h
    split at h
    · cases h
      exact .closeChannel
    · cases h
  | recv =>
    simp only [respond] at h
    split at h
    · rename_i job jobs hjobs
      cases h
      exact .recv hjobs
    · rename_i hjobs
      split at h
      · rename_i hclosed
        cases h
        exact .recvClosed hjobs hclosed
      · cases h
  | exit =>
    simp only [respond] at h
    split at h
    · cases h
      exact .exit rfl
    · cases h
  | _ =>
    cases h
    constructor

/-! ## Schedules -/

instance (cfg : Settings) : (i : Tid) → (w : World) → (j : Job) → Decidable (starts cfg i w j)
  | .caller _, _, .write _ _ | .caller _, _, .commit _ | .caller _, _, .abort _ => isTrue trivial
  | .worker n, _, .part => inferInstanceAs (Decidable (n < cfg.parallelism))
  | .finisher n, w, .finish backendErr indeterminate =>
    inferInstanceAs (Decidable (w.spawned[n]? = some ⟨backendErr, indeterminate, false⟩))
  | .caller _, _, .part | .caller _, _, .finish _ _ | .worker _, _, .write _ _ | .worker _, _, .commit _
  | .worker _, _, .abort _ | .worker _, _, .finish _ _ | .finisher _, _, .write _ _ | .finisher _, _, .commit _
  | .finisher _, _, .abort _ | .finisher _, _, .part => isFalse id

instance : (j : Job) → (r : j.Reply) → Decidable (again j r)
  | .part, (goesOn : Bool) => inferInstanceAs (Decidable ((goesOn : Bool) = true))
  | .finish _ _, _ => isFalse id
  | .write _ _, _ | .commit _, _ | .abort _, _ => isTrue trivial

instance (cfg : Settings) (i : Tid) (w : World) (j : Job) : Decidable ((crowd cfg).starts i w j) :=
  inferInstanceAs (Decidable (starts cfg i w j))

instance (cfg : Settings) : (t : Task World Op Op.Answer Job.Reply) → Decidable ((crowd cfg).free t)
  | .idle => isTrue trivial
  | .running .. => isFalse id
  | .returned j _ r => inferInstanceAs (Decidable (again j r))

end

/-- What an `Abort` returned. -/
def abortReply : Task World Op Op.Answer Job.Reply → Option AbortReply
  | .returned (.abort _) _ reply => some reply
  | _ => none

/-- What a `Commit` returned. -/
def commitReply : Task World Op Op.Answer Job.Reply → Option (Except Err ObjectAttrs)
  | .returned (.commit _) _ reply => some reply
  | _ => none

theorem returned_of_abortReply {t : Task World Op Op.Answer Job.Reply} {reply : AbortReply}
    (h : abortReply t = some reply) : ∃ ctx began, t = .returned (.abort ctx) began reply := by
  unfold abortReply at h
  split at h
  · cases h
    exact ⟨_, _, rfl⟩
  · cases h

theorem returned_of_commitReply {t : Task World Op Op.Answer Job.Reply} {reply : Except Err ObjectAttrs}
    (h : commitReply t = some reply) : ∃ ctx began, t = .returned (.commit ctx) began reply := by
  unfold commitReply at h
  split at h
  · cases h
    exact ⟨_, _, rfl⟩
  · cases h

/-! ## An upload of one byte

One worker, parts of one byte, and a context of number 1 that has ended. -/

namespace Sample

@[reducible] def hashes : Hashes := ⟨fun _ => .zero 32, fun _ => 0, fun _ => 0⟩

def cfg : Settings := ⟨⟨1, 16, 4, 64⟩, ⟨1, 1, 1, false, none⟩, rfl⟩

/-- A provider whose `Commit` answers as given. -/
def script (commit : Except Err ObjectAttrs) : Script where
  put job := .ok ⟨job.number, "", UInt64.ofNat job.used, .zero 32⟩
  commit _ := commit
  cleanup := none

def world : World where
  state := .opened
  firstErr := none
  receipts := []
  abortDone := none
  abortErr := none
  cleanupErr := none
  abortWasIndeterminate := false
  completed := ObjectAttrs.zero
  jobsClosed := false
  active := none
  activeBytes := 0
  nextPart := 1
  offset := 0
  hashed := []
  writeMu := none
  commitMu := none
  jobs := []
  cause := none
  exited := []
  done := false
  channels := []
  ctxs ctx := if ctx = 1 then some (.plain "context canceled") else none
  buffers _ := ⟨[0], .idle⟩
  spawned := []
  claimant := none
  parts := []
  log := []

theorem fresh : Fresh cfg world where
  state := rfl
  firstErr := rfl
  receipts := rfl
  aborts := ⟨rfl, rfl, rfl⟩
  writer := ⟨rfl, rfl, rfl, rfl, rfl, rfl⟩
  locks := ⟨rfl, rfl⟩
  jobs := rfl
  cause := rfl
  workers := ⟨rfl, rfl⟩
  channels := ⟨rfl, rfl, rfl, rfl⟩
  buffers _ := ⟨rfl, .inl rfl⟩
  history := ⟨rfl, rfl⟩

abbrev Schedule := List (Crowd.Event Tid Job)

/-- Let a thread go on until it waits or returns. -/
def resume (i : Tid) : Schedule := .replicate 40 (.go i)

def run (i : Tid) (j : Job) : Schedule := .start i j :: resume i

/-- A `Write`, a `Commit` that waits for the part, and the worker, which uploads the part and returns. -/
def upload : Schedule :=
  run (.caller 0) (.write 0 [7]) ++ run (.caller 1) (.commit 0) ++ run (.worker 0) .part ++ run (.worker 0) .part

attribute [local instance] hashes

def uploading (commit : Except Err ObjectAttrs) : World × (Tid → Task World Op Op.Answer Job.Reply) :=
  (crowd cfg).play (respond cfg (script commit)) world (fun _ => .idle) upload

/-- The part is in, and `u.done` is closed. -/
def uploaded (commit : Except Err ObjectAttrs) : World := { (uploading commit).1 with done := true }

/-- From there on, as the events say. -/
def after (commit : Except Err ObjectAttrs) (events : Schedule) : World × (Tid → Task World Op Op.Answer Job.Reply) :=
  (crowd cfg).play (respond cfg (script commit)) (uploaded commit) (uploading commit).2 events

theorem after_reaches {commit : Except Err ObjectAttrs} (events : Schedule)
    (hexited : (uploading commit).1.exited = [0]) :
    (crowd cfg).Reaches (Fresh cfg) (after commit events).1 (after commit events).2 := by
  have hreach : (crowd cfg).Reaches (Fresh cfg) (uploading commit).1 (uploading commit).2 :=
    Crowd.Reaches.play respond_act (.start fresh) upload
  have htick : Tick cfg (uploading commit).1 (uploaded commit) := by
    refine Tick.done fun n hn => ?_
    obtain rfl : n = 0 := Nat.lt_one_iff.1 hn
    rw [hexited]
    exact List.mem_cons_self
  exact Crowd.Reaches.play respond_act (hreach.tick htick) events

def lost : Except Err ObjectAttrs := .error (.plain "lost")

def stored : Except Err ObjectAttrs := .ok ⟨"k", 1, "", "", .zero 32⟩

theorem stored_reaches : (crowd cfg).Reaches (Fresh cfg) (after stored (resume (.caller 1))).1
    (after stored (resume (.caller 1))).2 :=
  after_reaches _ (by decide +kernel)

theorem stored_returned : ∃ ctx began,
    (after stored (resume (.caller 1))).2 (.caller 1) = .returned (.commit ctx) began stored :=
  returned_of_commitReply (by decide +kernel)

end Sample

end ObjLog.Stream
