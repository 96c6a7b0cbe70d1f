import ObjLog.Lib.Monitor
import ObjLog.Writer.Types
/-!
# The partition writer, `writer/writer.go`

The goroutines of a writer share its state behind `w.mu`. A function whose name
ends in `Locked` is entered and left with the lock held. A Go loop that releases
the lock until a condition holds is one `await`; the wake-up channels, the
metrics and the timeouts of background operations are not modelled, so a
goroutine may find its condition at any moment. `sessionMu` is a field: taking
it waits until no goroutine has it.

The background loops are given one turn at a time; a turn returns whether the
loop goes on.
-/

namespace ObjLog.Writer

open Lib Catformat Pmeta

/-! ## The state -/

/-- Who acts on a writer: its caller, its workers, its drain, the calls of `ApplyPendingRetention`. -/
inductive Goroutine where
  | foreground | age | finalize | publish | drain
  | retention (n : Nat)
deriving DecidableEq

/-- A call of `PublishSegment`: the cut number and the base of the segment, the `NextLSN` of the head
committed then, and the cut number of the call that was still running. -/
structure Publication where
  seq : Nat
  baseLSN : UInt64
  nextLSN : UInt64
  during : Option Nat

/-- The segments and what is known of them. The fields from `finalizing` on are not kept by the code:
they say where a segment is while a goroutine works on it, and what has happened so far. -/
structure Pipeline where
  committed : Snapshot
  optimisticNextLSN : UInt64
  active : Option ActiveSegment
  nextCutSeq : Nat
  /-- The goroutine whose transition of the active segment has begun and not ended. -/
  activeTransition : Option Goroutine
  hasTimestamp : Bool
  lastTimestamp : Int64
  inflightSegments : Nat
  detached : List DetachedSegment
  ready : List ReadySegment
  closed : Bool
  aborted : Bool
  sessionMu : Option Goroutine
  /-- The segment the finalize loop has taken. -/
  finalizing : Option DetachedSegment
  /-- The segment the publish loop has looked at last. -/
  publishing : Option ReadySegment
  /-- The empty segment `Flush` or `Close` is about to abort. -/
  discarding : Option ActiveSegment
  /-- The cut number of the next segment to commit. -/
  committedSeq : Nat
  calls : List Publication
  outstanding : Option Nat
  accepted : List Segwriter.Record
  published : List Segwriter.Record
  /-- The number of segment writers started, and those closed or aborted since. -/
  started : Nat
  retired : List Segwriter.Writer
  /-- Who made the writer terminal, and the segment writers given up then. -/
  terminatedBy : Option Goroutine
  abandoned : List Segwriter.Writer

structure State extends Pipeline where
  inflightBytes : UInt64
  firstErr : Option Err
  firstErrSurface : Bool
  drainStarted : Bool
  /-- The arguments of `runDrain`. -/
  draining : Option ActiveSegment × List DetachedSegment
  drainDone : Bool
  drainCleanupErr : Option Err
  drainWorkerErr : Option Err
  workersWG : Nat

/-- The fields of a writer that never change. -/
structure Config where
  cpus : Int
  opts : Options
  streamID : String
  partition : UInt32
  identity : WriterIdentity

/-! ## What comes from outside -/

inductive Ctx where
  | caller | worker
deriving DecidableEq

inductive Call where
  | newUUID | random | now | ctxErr
  | newSegmentSink (info : SegmentInfo)
  | segwriterAppend | segwriterClose | segwriterAbort
  | publishSegment (req : PublishRequest)
  | applyPendingRetention | reconcilePendingRetention

@[reducible] def Call.Answer : Call → Type
  | .newUUID => Except Err (Arr 16)
  | .random => Except Err (Arr 16)
  | .now => Time
  | .ctxErr => Option Err
  | .newSegmentSink _ => Except Err Bool
  | .segwriterAppend => Segwriter.AppendTurn
  | .segwriterClose => Segwriter.CloseTurn
  | .segwriterAbort => Option Err
  | .publishSegment _ => Except Err Snapshot
  | .applyPendingRetention => Except Err RetentionResult
  | .reconcilePendingRetention => Except Err (RetentionResult × Bool)

abbrev Act := Prog (Turn State Ctx Call) (Turn.Answer Err Call.Answer)

abbrev P := StateT State Act

def ask (e : Call) : P e.Answer := Monitor.ask e

def lock : P Unit := Monitor.lock

def unlock : P Unit := Monitor.unlock

def lockWhen (ready : State → Bool) (ctx : Option Ctx) : P (Option Err) := Monitor.lockWhen ready ctx

/-- The loop that waits for `ready`: it looks first and releases the lock only if it must. -/
def waitLocked (ready : State → Bool) (ctx : Ctx) : P (Option Err) := do
  let s ← get
  if ready s then return none
  Monitor.await ready ctx

/-! ## Errors and the end of the writer -/

namespace State

variable (s : State)

def abortedErr : Option Err :=
  if s.aborted = false then none
  else match s.firstErr with
    | some err => if s.firstErrSurface then some (.bare (.writer .aborted)) else some err
    | none => some (.bare (.writer .aborted))

/-- `surfaceAbortedErrLocked`. -/
def surfaceAbortedErr : Option Err × State :=
  (s.abortedErr, if s.aborted ∧ s.firstErr.isSome then { s with firstErrSurface := true } else s)

/-- `foregroundErrLocked`. -/
def foregroundErr : Option Err × State :=
  if s.closed then (some (.bare (.writer .closed)), s) else s.surfaceAbortedErr

/-- `surfaceReturnedErrLocked`: the caller has seen the first error. -/
def surfaceReturnedErr (err : Err) : State :=
  if s.aborted ∧ s.firstErr = some err then { s with firstErrSurface := true } else s

/-- `startDrainLocked`. -/
def startDrain (active : Option ActiveSegment) (detached : List DetachedSegment) : State :=
  if s.drainStarted then s else { s with drainStarted := true, draining := (active, detached) }

/-- The writer becomes terminal: the segments are given up and handed to the drain. -/
def terminate (g : Goroutine) : State :=
  { s with
    aborted := true
    active := none
    detached := []
    ready := []
    terminatedBy := if s.aborted then s.terminatedBy else some g
    abandoned := if s.aborted then s.abandoned
      else s.active.toList.map (·.writer) ++ s.detached.map (·.writer) : State }.startDrain s.active s.detached

/-- `failWithSurfaceLocked`. -/
def failWithSurface (g : Goroutine) (err : Err) (surfaced : Bool) : State :=
  { s with
    firstErr := s.firstErr.or (some err)
    firstErrSurface := s.firstErrSurface || surfaced : State }.terminate g

end State

def failLocked (g : Goroutine) (err : Err) : P Unit := modify fun s => s.failWithSurface g err true

def failAsyncLocked (g : Goroutine) (err : Err) : P Unit := modify fun s => s.failWithSurface g err false

/-- `noteTerminalErr`. -/
def noteTerminalErr (g : Goroutine) (err : Err) (surfaced : Bool) : P Unit := do
  lock
  modify fun s => s.failWithSurface g err (surfaced && decide (s.firstErr.getD err = err))
  unlock

def noteAsyncErr (g : Goroutine) (err : Err) : P Unit := noteTerminalErr g err false

def noteForegroundErr (g : Goroutine) (err : Err) : P Unit := noteTerminalErr g err true

namespace Config

variable (w : Config)

/-! ## Reservations -/

/-- `canReserveLocked`. -/
def canReserve (segments : Nat) (bytes : UInt64) (s : State) : Bool :=
  if w.opts.queue.maxInflightSegments > 0 ∧ (s.inflightSegments : Int) > w.opts.queue.maxInflightSegments - segments then
    false
  else if w.opts.queue.maxInflightBytes > 0 ∧ s.inflightBytes > w.opts.queue.maxInflightBytes - bytes then false
  else true

/-- A reservation that no state allows. -/
def overLimit (segments : Nat) (bytes : UInt64) : Option Err :=
  if w.opts.queue.maxInflightSegments > 0 ∧ (segments : Int) > w.opts.queue.maxInflightSegments then
    some (.under (.writer .invalidOptions) (.of (.writer .reservationExceedsLimit)
      s!"reservation segments={segments} exceeds max_inflight_segments={w.opts.queue.maxInflightSegments}"))
  else if w.opts.queue.maxInflightBytes > 0 ∧ bytes > w.opts.queue.maxInflightBytes then
    some (.under (.writer .invalidOptions) (.of (.writer .reservationExceedsLimit)
      s!"reservation bytes={bytes} exceeds max_inflight_bytes={w.opts.queue.maxInflightBytes}"))
  else none

def reserveInflightLocked (ctx : Ctx) (segments : Nat) (bytes : UInt64) : P (Option Err) := do
  match w.overLimit segments bytes with
  | some err => return some err
  | none =>
    match ← waitLocked (fun s => s.aborted || w.canReserve segments bytes s) ctx with
    | some err => return some err
    | none =>
      let s ← get
      match s.abortedErr with
      | some err => return some err
      | none =>
        modify fun s => { s with
          inflightSegments := s.inflightSegments + segments
          inflightBytes := s.inflightBytes + bytes }
        return none

def releaseInflightLocked (segments : Nat) (bytes : UInt64) : P Unit :=
  modify fun s => { s with
    inflightSegments := s.inflightSegments - segments
    inflightBytes := if s.inflightBytes ≥ bytes then s.inflightBytes - bytes else 0 }

/-! ## The transition of the active segment -/

def waitActiveTransitionLocked (ctx : Ctx) : P (Option Err) := do
  match ← waitLocked (fun s => s.activeTransition.isNone) ctx with
  | some err => return some err
  | none =>
    let s ← get
    if s.closed then return some (.bare (.writer .closed))
    return s.abortedErr

def beginActiveTransitionLocked (g : Goroutine) (ctx : Ctx) : P (Option Err) := do
  match ← waitActiveTransitionLocked ctx with
  | some err => return some err
  | none =>
    modify fun s => { s with activeTransition := some g }
    return none

def endActiveTransitionLocked : P Unit := modify fun s => { s with activeTransition := none }

def segmentInfo (lsn : UInt64) (segmentUUID : Arr 16) (createdUnixMS : Int64) : SegmentInfo where
  streamID := w.streamID
  partition := w.partition
  baseLSN := lsn
  writerEpoch := w.identity.epoch
  writerTag := w.identity.tag
  segmentUUID := segmentUUID
  createdUnixMS := createdUnixMS

/-- `segwriter.New` with the writer's options. -/
def newSegwriter (random : Except Err (Arr 16)) (now : Time) (segmentUUID : Arr 16) (createdUnixMS : Int64)
    (sink : Bool) : Except Err Segwriter.Writer :=
  Segwriter.new w.cpus random (unixMilli now)
    { w.opts.segmentOptions with
      partition := w.partition
      segmentUUID := segmentUUID
      writerTag := w.identity.tag
      createdUnixMS := createdUnixMS } sink

def startSegmentLocked : P (Option Err) := do
  match ← ask .newUUID with
  | .error err => return some (wrapSegmentStart err)
  | .ok segmentUUID =>
    let createdUnixMS := unixMilli (← ask .now)
    let s ← get
    match ← ask (.newSegmentSink (w.segmentInfo s.optimisticNextLSN segmentUUID createdUnixMS)) with
    | .error err => return some (wrapSegmentStart err)
    | .ok sink =>
      let random ← ask .random
      let now ← ask .now
      match w.newSegwriter random now segmentUUID createdUnixMS sink with
      | .error err => return some (wrapSegmentStart err)
      | .ok sw =>
        modify fun s => { s with
          active := some ⟨sw, s.optimisticNextLSN, 0, 0, 0⟩
          started := s.started + 1 }
        return none

def estimate (old : ActiveSegment) : UInt64 :=
  estimateInflightBytes old.rawBytes old.records w.opts.segmentOptions.codec

/-- The old segment joins the queue of the finalize loop. -/
def detach (old : ActiveSegment) (s : State) : State :=
  { s with
    detached := s.detached ++ [⟨s.nextCutSeq, old.baseLSN, old.records, old.rawBytes, w.estimate old, old.writer⟩]
    nextCutSeq := s.nextCutSeq + 1 }

/-- The part of `cutLocked` and `detachActiveLocked` between the beginning and the end of the
transition; `renew` is what takes the place of the old segment. -/
def rotateLocked (g : Goroutine) (ctx : Ctx) (renew : P (Option Err)) : P (Option Err) := do
  let s ← get
  match s.active with
  | none => return none
  | some old =>
    if old.records = 0 then return none
    match ← w.reserveInflightLocked ctx 1 (w.estimate old) with
    | some err =>
      if err.is (.writer .reservationExceedsLimit) then
        failAsyncLocked g err
        return some err
      return some err
    | none =>
      match ← renew with
      | some err =>
        releaseInflightLocked 1 (w.estimate old)
        return some err
      | none =>
        modify (w.detach old)
        return none

def transitionLocked (g : Goroutine) (ctx : Ctx) (renew : P (Option Err)) : P (Option Err) := do
  match ← beginActiveTransitionLocked g ctx with
  | some err => return some err
  | none =>
    let err ← w.rotateLocked g ctx renew
    endActiveTransitionLocked
    return err

def cutLocked (g : Goroutine) (ctx : Ctx) : P (Option Err) := w.transitionLocked g ctx w.startSegmentLocked

def detachActiveLocked (g : Goroutine) (ctx : Ctx) : P (Option Err) :=
  w.transitionLocked g ctx do
    modify fun s => { s with active := none }
    return none

/-! ## Append -/

def tooOld (now : Time) (a : ActiveSegment) : Bool :=
  w.opts.roll.maxSegmentAge > 0 && a.firstRecordAt != 0 && decide (now - a.firstRecordAt ≥ w.opts.roll.maxSegmentAge)

/-- `shouldCutBeforeLocked`; the clock is read before the other conditions. -/
def shouldCutBefore (now : Time) (nextRecordSize : UInt64) (s : State) : Bool :=
  match s.active with
  | none => false
  | some a =>
    if a.records = 0 then false
    else if w.opts.roll.maxSegmentRecords > 0 ∧ a.records ≥ w.opts.roll.maxSegmentRecords then true
    else if w.tooOld now a then true
    else if w.opts.roll.maxSegmentRawBytes > 0 then
      decide (a.rawBytes ≥ w.opts.roll.maxSegmentRawBytes) ||
        decide (nextRecordSize > w.opts.roll.maxSegmentRawBytes - a.rawBytes)
    else false

/-- `shouldCutAfterLocked`. -/
def shouldCutAfter (now : Time) (s : State) : Bool :=
  match s.active with
  | none => false
  | some a =>
    (decide (w.opts.roll.maxSegmentRecords > 0) && decide (a.records ≥ w.opts.roll.maxSegmentRecords)) ||
    (decide (w.opts.roll.maxSegmentRawBytes > 0) && decide (a.rawBytes ≥ w.opts.roll.maxSegmentRawBytes)) ||
    (decide (a.records > 0) && w.tooOld now a)

/-- A returned error: surface it, release the lock. -/
def returnErr {α : Type} (err : Err) : P (Except Err α) := do
  modify fun s => s.surfaceReturnedErr err
  unlock
  return .error err

/-- A terminal error: fail, release the lock. -/
def returnFailed {α : Type} (g : Goroutine) (err : Err) : P (Except Err α) := do
  failLocked g err
  unlock
  return .error err

/-- The record is accepted. -/
def accept (record : Record) (recordSize : UInt64) (now : Time) (sw : Segwriter.Writer) (a : ActiveSegment)
    (s : State) : State :=
  { s with
    optimisticNextLSN := s.optimisticNextLSN + 1
    hasTimestamp := true
    lastTimestamp := record.timestampMS
    active := some { a with
      writer := sw
      records := a.records + 1
      rawBytes := a.rawBytes + recordSize
      firstRecordAt := if a.records = 0 then now else a.firstRecordAt }
    accepted := s.accepted ++ [record.at s.optimisticNextLSN] }

/-- The record is already accepted: an error of the cut is not the caller's. -/
def tryCutAfterAppendLocked : P Unit := do
  let now ← ask .now
  let s ← get
  if w.shouldCutAfter now s then
    let _ ← w.cutLocked .foreground .caller
    return ()
  else return ()

/-- `Append` from the segment writer on. -/
def appendActiveLocked (record : Record) (recordSize : UInt64) : P (Except Err UInt64) := do
  let s ← get
  match s.active with
  | none =>
    -- Not reached: the segment was found or has just been started.
    unlock
    return .error (.plain "runtime error: invalid memory address or nil pointer dereference")
  | some a =>
    let lsn := s.optimisticNextLSN
    let turn ← ask .segwriterAppend
    match a.writer.append turn (record.at lsn) with
    | .error (err, sw) =>
      modify fun s => { s with active := some { a with writer := sw } }
      if err.is (.segwriter .appendNotAccepted) then
        let callerErr ← ask .ctxErr
        unlock
        return .error (callerErr.getD err)
      returnFailed .foreground (wrapSegmentWrite err)
    | .ok sw =>
      let now ← ask .now
      modify (accept record recordSize now sw a)
      w.tryCutAfterAppendLocked
      unlock
      return .ok lsn

/-- `Append` from `startSegmentLocked` on. -/
def appendStartedLocked (record : Record) (recordSize : UInt64) : P (Except Err UInt64) := do
  let s ← get
  if s.active.isSome then w.appendActiveLocked record recordSize
  else
    match ← w.startSegmentLocked with
    | some err =>
      unlock
      return .error err
    | none => w.appendActiveLocked record recordSize

/-- `Append` from the cut before the record on. -/
def appendSizedLocked (record : Record) (recordSize : UInt64) : P (Except Err UInt64) := do
  let now ← ask .now
  let s ← get
  if w.shouldCutBefore now recordSize s then
    match ← w.cutLocked .foreground .caller with
    | some err => returnErr err
    | none => w.appendStartedLocked record recordSize
  else w.appendStartedLocked record recordSize

/-- The checks of `Append` that make the writer terminal, and the size of the record. -/
def checkRecord (record : Record) (s : State) : Except Err UInt64 := do
  failIf (s.optimisticNextLSN = maxUint64) (.of (.writer .lsnExhausted) s!"next_lsn={s.optimisticNextLSN}")
  failIf (s.hasTimestamp = true ∧ record.timestampMS < s.lastTimestamp)
    (.of (.writer .timestampOrder) s!"got={record.timestampMS} previous={s.lastTimestamp}")
  let size ← Segformat.recordSize record.headers record.value
  return .ofNat size

def append (record : Record) : P (Except Err UInt64) := do
  lock
  match ← waitActiveTransitionLocked .caller with
  | some err => returnErr err
  | none =>
    let s ← get
    match checkRecord record s with
    | .error err => returnFailed .foreground err
    | .ok recordSize =>
      let recordEstimate := estimateInflightBytes recordSize 1 w.opts.segmentOptions.codec
      if w.opts.queue.maxInflightBytes > 0 ∧ recordEstimate > w.opts.queue.maxInflightBytes then
        unlock
        return .error (.of (.writer .recordExceedsInflightBudget)
          s!"reservation bytes={recordEstimate} exceeds max_inflight_bytes={w.opts.queue.maxInflightBytes}")
      w.appendSizedLocked record recordSize

/-! ## Cut, Flush, Close and Abort -/

def cut : P (Option Err) := do
  lock
  match ← modifyGet State.foregroundErr with
  | some err =>
    unlock
    return some err
  | none =>
    let err ← w.cutLocked .foreground .caller
    modify fun s => err.elim s s.surfaceReturnedErr
    unlock
    return err

/-- An empty active segment is taken away. -/
def takeEmptyLocked : P (Option ActiveSegment) := do
  let s ← get
  match s.active with
  | none => return none
  | some a =>
    if a.records = 0 then
      modify fun s => { s with active := none, discarding := some a }
      return some a
    else return none

/-- What `Flush` and `Close` do first: detach the active segment, or take it away if it is empty. -/
def detachOrTakeLocked : P (Except Err (Option ActiveSegment)) := do
  let s ← get
  if s.active.elim 0 (·.records) > 0 then
    match ← w.detachActiveLocked .foreground .caller with
    | some err =>
      modify fun s => s.surfaceReturnedErr err
      return .error err
    | none => return .ok (← takeEmptyLocked)
  else return .ok (← takeEmptyLocked)

/-- `abortWriterBestEffort` of the empty segment, without the lock. -/
def abortEmpty : Option ActiveSegment → P (Except Err (Option Segwriter.Writer))
  | none => return .ok none
  | some a => do
    let cleanup ← ask .segwriterAbort
    match a.writer.abort cleanup with
    | (some err, _) =>
      noteForegroundErr .foreground (wrapSegmentWrite err)
      return .error (wrapSegmentWrite err)
    | (none, sw) => return .ok (some sw)

/-- The empty segment is aborted. -/
def discarded (sw : Option Segwriter.Writer) (s : State) : State :=
  match sw with
  | none => s
  | some sw => { s with discarding := none, retired := s.retired ++ [sw] }

def waitDrainedLocked (ctx : Ctx) : P (Option Err) := do
  match ← waitLocked (fun s => s.aborted || s.inflightSegments == 0) ctx with
  | some err => return some err
  | none =>
    let s ← get
    return s.abortedErr

/-- The lock is taken again, and the segments in flight are waited for. -/
def lockDrained (sw : Option Segwriter.Writer) : P (Option Err) := do
  lock
  modify (discarded sw)
  waitDrainedLocked .caller

def flush : P (Except Err Snapshot) := do
  lock
  match ← modifyGet State.foregroundErr with
  | some err =>
    unlock
    return .error err
  | none =>
    match ← w.detachOrTakeLocked with
    | .error err =>
      unlock
      return .error err
    | .ok emptyActive =>
      unlock
      match ← abortEmpty emptyActive with
      | .error err => return .error err
      | .ok sw =>
        match ← lockDrained sw with
        | some err => returnErr err
        | none =>
          let s ← get
          unlock
          return .ok s.committed

def waitDrain (ctx : Ctx) : P (Option Err) := do
  match ← lockWhen (fun s => s.drainDone) (some ctx) with
  | some err =>
    unlock
    return some err
  | none =>
    let s ← get
    unlock
    return s.drainCleanupErr

/-- Wait for the drain, then return the snapshot. -/
def returnDrained (snapshot : Snapshot) : P (Except Err Snapshot) := do
  match ← waitDrain .caller with
  | some err => return .error err
  | none => return .ok snapshot

/-- Return an error, after the drain if the writer is terminal. -/
def returnTerminal (terminal : Bool) (err : Err) : P (Except Err Snapshot) := do
  if terminal then
    match ← waitDrain .caller with
    | some late => return .error (.join (some err) late)
    | none => return .error err
  else return .error err

/-- `Close` of a writer that is neither closed nor terminal. -/
def closeLocked : P (Except Err Snapshot) := do
  match ← w.detachOrTakeLocked with
  | .error err =>
    let s ← get
    unlock
    returnTerminal s.aborted err
  | .ok emptyActive =>
    unlock
    match ← abortEmpty emptyActive with
    | .error err => returnTerminal true err
    | .ok sw =>
      match ← lockDrained sw with
      | some err =>
        modify fun s => s.surfaceReturnedErr err
        let s ← get
        unlock
        returnTerminal s.aborted err
      | none =>
        modify fun s => { s with closed := true }
        let s ← get
        modify fun s => s.startDrain none []
        unlock
        returnDrained s.committed

def close : P (Except Err Snapshot) := do
  lock
  let s ← get
  if s.closed then
    modify fun s => s.startDrain none []
    unlock
    returnDrained s.committed
  else
    match ← modifyGet State.surfaceAbortedErr with
    | some err =>
      modify fun s => s.startDrain none []
      unlock
      returnTerminal true err
    | none => w.closeLocked

/-- The error `Abort` of a terminal writer returns besides that of the drain. -/
def unsurfacedErr (s : State) : Option Err × State :=
  if s.firstErrSurface then (none, s) else (s.firstErr, if s.firstErr.isSome then { s with firstErrSurface := true } else s)

def abort : P (Option Err) := do
  lock
  let s ← get
  if s.closed then
    modify fun s => s.startDrain none []
    unlock
    waitDrain .caller
  else if s.aborted then
    let terminalErr ← modifyGet unsurfacedErr
    modify fun s => s.startDrain none []
    unlock
    let err ← waitDrain .caller
    return joinErrs terminalErr err
  else
    modify fun s => { s with
      firstErr := some (.bare (.writer .aborted))
      firstErrSurface := true : State }.terminate .foreground
    unlock
    waitDrain .caller

/-! ## Retention -/

def lockSession (g : Goroutine) : P Unit := do
  let _ ← lockWhen (fun s => s.sessionMu.isNone) none
  modify fun s => { s with sessionMu := some g }
  unlock

def unlockSession : P Unit := do
  lock
  modify fun s => { s with sessionMu := none }
  unlock

/-- `w.committed`, read under the lock. -/
def readCommitted : P Snapshot := do
  lock
  let s ← get
  unlock
  return s.committed

/-- `acceptRetentionLocked`, with `sessionMu` held. -/
def acceptRetention (current : Snapshot) (result : RetentionResult) : P (Option Err) := do
  match validateRetentionSnapshot current result with
  | .error err => return some err
  | .ok () =>
    lock
    modify fun s => { s with committed := result.snapshot }
    unlock
    return none

/-- `reconcileRetentionLocked`, with `sessionMu` held. -/
def reconcileRetention : P (Option Err) := do
  if w.opts.session.elim false (·.reconciler) then
    let current ← readCommitted
    match ← ask .reconcilePendingRetention with
    | .error err => return some (normalizeRetentionErr err)
    | .ok (result, pending) =>
      if pending then acceptRetention current result else return none
  else return none

/-- `ApplyPendingRetention` once `sessionMu` is held. -/
def applyRetentionSession (g : Goroutine) : P (Except Err RetentionResult) := do
  lock
  match ← modifyGet State.foregroundErr with
  | some err =>
    unlock
    unlockSession
    return .error err
  | none =>
    let s ← get
    unlock
    match ← ask .applyPendingRetention with
    | .error err =>
      unlockSession
      if (normalizeRetentionErr err).is (.writer .staleWriter) then
        noteForegroundErr g (normalizeRetentionErr err)
        return .error (normalizeRetentionErr err)
      else return .error (normalizeRetentionErr err)
    | .ok result =>
      match ← acceptRetention s.committed result with
      | some err =>
        unlockSession
        noteForegroundErr g err
        return .error err
      | none =>
        unlockSession
        return .ok result

def applyPendingRetention (g : Goroutine) : P (Except Err RetentionResult) := do
  if w.opts.session.elim false (·.retention) then
    lockSession g
    applyRetentionSession g
  else return .error (.bare (.writer .retentionUnsupported))

/-! ## The workers -/

/-- `w.workerCtx.Err() != nil`: the drain has started. -/
def workerDone : P Bool := do
  lock
  let s ← get
  unlock
  return s.drainStarted

/-- A pause that ends early with the workers' context; whether the worker goes on. -/
def pause : P Bool := do
  let err ← lockWhen (fun _ => true) (some .worker)
  unlock
  return err.isNone

/-- The leaves of an error are its sentinels; nothing is left if all are cancellations. -/
def withoutContextCancellation (err : Err) : Option Err :=
  if err.sentinels ≠ [] ∧ err.sentinels.all (fun s => s = .canceled ∨ s = .deadlineExceeded) then none else some err

def noteDrainWorkerErr (err : Err) : P Unit :=
  match withoutContextCancellation err with
  | none => return ()
  | some err => do
    lock
    modify fun s => { s with drainWorkerErr := joinErrs s.drainWorkerErr (some err) }
    unlock

/-- A segment has been closed: it is ready to be published, and its size replaces the estimate. -/
def finalized (item : DetachedSegment) (sizeBytes : UInt64) (segment : SegmentRef) (sw : Segwriter.Writer)
    (s : State) : State :=
  { s with
    inflightBytes :=
      if sizeBytes > item.estBytes then s.inflightBytes + (sizeBytes - item.estBytes)
      else if s.inflightBytes ≥ item.estBytes - sizeBytes then s.inflightBytes - (item.estBytes - sizeBytes)
      else 0
    ready := s.ready ++ [⟨item.seq, item.baseLSN, item.estBytes, sizeBytes, segment, sw.records⟩]
    finalizing := none
    retired := s.retired ++ [sw] }

/-- A worker's loop waits for work; `none` if it has to stop. -/
def awaitWork {α : Type} (work : State → Option α) : P (Option α) := do
  match ← lockWhen (fun s => (work s).isSome || s.drainStarted) (some .worker) with
  | some _ => return none
  | none =>
    let s ← get
    return work s

/-- `finalizeLoop` with a segment taken from the queue. -/
def finalizeItem (item : DetachedSegment) : P Bool := do
  let turn ← ask .segwriterClose
  match item.writer.close turn with
  | .error (err, _) =>
    if ← workerDone then
      noteDrainWorkerErr err
      return false
    else
      noteAsyncErr .finalize (wrapSegmentWrite err)
      return false
  | .ok (result, sw) =>
    let segment := segmentRefFromResult result w.streamID w.identity
    match segment.validate with
    | .error err =>
      noteAsyncErr .finalize (.under (.writer .segmentWriteFailed) err)
      return false
    | .ok () =>
      lock
      modify (finalized item result.object.sizeBytes segment sw)
      unlock
      return true

/-- One turn of `finalizeLoop`. -/
def finalizeTurn : P Bool := do
  match ← awaitWork (fun s => s.detached.head?) with
  | none =>
    unlock
    return false
  | some item =>
    modify fun s => { s with detached := s.detached.tail, finalizing := some item }
    unlock
    w.finalizeItem item

/-- A segment has been committed. -/
def publishedSegment (item : ReadySegment) (next : Snapshot) (s : State) : State :=
  let popped : State :=
    if s.ready.head?.elim false (·.seq = item.seq) then { s with
      ready := s.ready.tail
      inflightSegments := s.inflightSegments - 1
      inflightBytes := if s.inflightBytes ≥ item.sizeBytes then s.inflightBytes - item.sizeBytes else 0 }
    else s
  { popped with
    committed := next
    publishing := none
    committedSeq := s.committedSeq + 1
    outstanding := none
    published := s.published ++ item.records }

/-- The call of `PublishSegment` begins. -/
def publishing (item : ReadySegment) (s : State) : State :=
  { s with
    calls := s.calls ++ [⟨item.seq, item.segment.baseLSN, s.committed.head.nextLSN, s.outstanding⟩]
    outstanding := some item.seq }

/-- `publishLoop` once nothing is left to reconcile, with `sessionMu` held. -/
def publishItem (item : ReadySegment) : P Bool := do
  lock
  let s ← get
  modify (publishing item)
  unlock
  match ← ask (.publishSegment ⟨item.expectedNextLSN, item.segment⟩) with
  | .error err =>
    unlockSession
    noteAsyncErr .publish (normalizePublishErr err)
    return false
  | .ok next =>
    match validatePublishedSnapshot s.committed next item.segment with
    | .error err =>
      unlockSession
      noteAsyncErr .publish err
      return false
    | .ok () =>
      lock
      modify (publishedSegment item next)
      let s ← get
      unlock
      unlockSession
      return !(s.drainStarted && s.inflightSegments == 0)

/-- One turn of `publishLoop`. -/
def publishTurn : P Bool := do
  match ← awaitWork (fun s => s.ready.head?) with
  | none =>
    unlock
    return false
  | some item =>
    modify fun s => { s with publishing := some item }
    unlock
    lockSession .publish
    match ← w.reconcileRetention with
    | some err =>
      unlockSession
      if ← workerDone then return false
      else if err.is (.writer .retentionIndeterminate) then pause
      else
        noteAsyncErr .publish err
        return false
    | none => publishItem item

/-- One turn of `ageLoop`. -/
def ageTurn : P Bool := do
  match ← lockWhen (fun s => decide (s.active.elim 0 (·.records) > 0) || s.drainStarted) (some .worker) with
  | some _ =>
    unlock
    return false
  | none =>
    let s ← get
    if s.drainStarted then
      unlock
      return false
    else
      let now ← ask .now
      if s.active.elim 0 (·.firstRecordAt) + w.opts.roll.maxSegmentAge - now > 0 then
        unlock
        pause
      else
        let err ← w.cutLocked .age .worker
        unlock
        match err with
        | none => return true
        | some err =>
          if ← workerDone then return false
          else if err.is (.writer .segmentStartFailed) then pause
          else
            noteAsyncErr .age err
            return false

/-- The turn of a worker; the last one ends with `workersWG.Done`. -/
def worker (turn : P Bool) : P Bool := do
  if ← turn then return true
  else
    lock
    modify fun s => { s with workersWG := s.workersWG - 1 }
    unlock
    return false

/-! ## The drain -/

def abortSegments : List Segwriter.Writer → P (Option Err)
  | [] => return none
  | sw :: rest => do
    let cleanup ← ask .segwriterAbort
    let later ← abortSegments rest
    return joinErrs (sw.abort cleanup).1 later

def runDrain : P Unit := do
  lock
  let s ← get
  unlock
  let cleanupErr ← abortSegments (s.draining.1.toList.map (·.writer) ++ s.draining.2.map (·.writer))
  let _ ← lockWhen (fun s => s.workersWG == 0) none
  modify fun s => { s with drainCleanupErr := joinErrs cleanupErr s.drainWorkerErr, drainDone := true }
  unlock

end Config

/-! ## Construction -/

def initialState (snapshot : Snapshot) (workers : Nat) : State where
  committed := snapshot
  optimisticNextLSN := snapshot.head.nextLSN
  active := none
  nextCutSeq := 0
  activeTransition := none
  hasTimestamp := snapshot.head.hasLastSegment
  lastTimestamp := if snapshot.head.hasLastSegment then snapshot.head.lastSegment.maxTimestampMS else 0
  inflightSegments := 0
  detached := []
  ready := []
  closed := false
  aborted := false
  sessionMu := none
  finalizing := none
  publishing := none
  discarding := none
  committedSeq := 0
  calls := []
  outstanding := none
  accepted := []
  published := []
  started := 0
  retired := []
  terminatedBy := none
  abandoned := []
  inflightBytes := 0
  firstErr := none
  firstErrSurface := false
  drainStarted := false
  draining := (none, [])
  drainDone := false
  drainCleanupErr := none
  drainWorkerErr := none
  workersWG := workers

def new (cpus : Int) (opts : Options) (snapshot : Snapshot) : Except Err (Config × State) := do
  failIf (opts.session.isNone = true) (.of (.writer .invalidOptions) "session is nil")
  validateSnapshot snapshot
  let opts ← normalizeOptionsForPartition cpus opts snapshot.head.partition
  return (⟨cpus, opts, snapshot.head.streamID, snapshot.head.partition, snapshot.identity⟩,
    initialState snapshot (if opts.roll.maxSegmentAge > 0 then 3 else 2))

end ObjLog.Writer
