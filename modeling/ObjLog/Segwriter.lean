import ObjLog.Lib.Tiling
import ObjLog.Segformat
/-!
# Segment writers, `segwriter/writer.go`

A segment writer collects records in block buffers. Its seal workers, emitter
and sink run beside it; what they contribute to one call is a `Turn`, given from
outside. A failed call returns the writer it leaves together with the error.

The bytes of a block are not built: a buffer keeps its records and their size.
-/

namespace ObjLog.Segwriter

open Lib Catformat Segformat

/-! ## Options -/

structure Options where
  partition : UInt32
  codec : Codec
  hashAlgo : HashAlgo
  targetBlockSize : Int
  partSize : Int
  sealParallelism : Int
  blockBufferCount : Int
  uploadParallelism : Int
  uploadQueueSize : Int
  /-- Whether an upload limiter is set. -/
  uploadLimiter : Bool
  segmentUUID : Arr 16
  writerTag : Arr 16
  createdUnixMS : Int64
deriving DecidableEq

def Options.zero : Options := ⟨0, .none, .crc32c, 0, 0, 0, 0, 0, 0, false, .zero 16, .zero 16, 0⟩

def defaultTargetBlockSize : Int := 1048576
def defaultPartSize : Int := 8388608
def defaultUploadParallelism : Int := 2

def defaultSealParallelism (cpus : Int) : Int := if cpus > 4 then 4 else if cpus < 1 then 1 else cpus

def defaultOptions (cpus : Int) (partition : UInt32) : Options where
  partition := partition
  codec := .zstd
  hashAlgo := .xxh64
  targetBlockSize := defaultTargetBlockSize
  partSize := defaultPartSize
  sealParallelism := defaultSealParallelism cpus
  blockBufferCount := 2 * defaultSealParallelism cpus + 1
  uploadParallelism := defaultUploadParallelism
  uploadQueueSize := defaultUploadParallelism
  uploadLimiter := false
  segmentUUID := .zero 16
  writerTag := .zero 16
  createdUnixMS := 0

/-- `normalizeOptions` from the parallelism on. -/
def normalizeBuffers (cpus : Int) (opts : Options) : Options :=
  let seals := if opts.sealParallelism ≤ 0 then defaultSealParallelism cpus else opts.sealParallelism
  let buffers := if opts.blockBufferCount ≤ 0 then 2 * seals + 1 else opts.blockBufferCount
  let uploads := if opts.uploadParallelism ≤ 0 then defaultUploadParallelism else opts.uploadParallelism
  { opts with
    sealParallelism := seals
    blockBufferCount := if buffers < seals + 1 then seals + 1 else buffers
    uploadParallelism := uploads
    uploadQueueSize := if opts.uploadQueueSize ≤ 0 then uploads else opts.uploadQueueSize }

/-- `random` is what `rand.Read` would give, `nowMS` the time. -/
def normalizeOptions (cpus : Int) (random : Except Err (Arr 16)) (nowMS : Int64) (opts : Options) :
    Except Err Options := do
  restate opts.codec.validate (.under (.segwriter .invalidOptions))
  restate opts.hashAlgo.validate (.under (.segwriter .invalidOptions))
  let target := if opts.targetBlockSize ≤ 0 then defaultTargetBlockSize else opts.targetBlockSize
  let opts := { opts with
    targetBlockSize := if target > maxRawBlockSize then (maxRawBlockSize : Int) else target
    partSize := if opts.partSize ≤ 0 then defaultPartSize else opts.partSize }
  let opts := normalizeBuffers cpus opts
  let uuid ← if opts.segmentUUID = .zero 16 then
      restate random (.ofWithin (.segwriter .invalidOptions) "segment uuid")
    else pure opts.segmentUUID
  return { opts with
    segmentUUID := uuid
    createdUnixMS := if opts.createdUnixMS = 0 then nowMS else opts.createdUnixMS }

/-! ## The writer -/

structure Record where
  lsn : UInt64
  timestampMS : Int64
  headers : List Header
  value : Bytes
deriving DecidableEq

/-- `size` is the length of the raw block. -/
structure BlockBuffer where
  seq : UInt64
  size : Nat
  baseLSN : UInt64
  recordCount : UInt32
  minTimestampMS : Int64
  maxTimestampMS : Int64
  records : List Record
deriving DecidableEq

def BlockBuffer.empty : BlockBuffer := ⟨0, 0, 0, 0, 0, 0, []⟩

/-- `sealing` are the buffers handed to the seal workers, in order. -/
structure Writer where
  opts : Options
  sealing : List BlockBuffer
  active : Option BlockBuffer
  hasRecords : Bool
  closed : Bool
  aborted : Bool
  baseLSN : UInt64
  nextLSN : UInt64
  recordCount : UInt32
  minTimestampMS : Int64
  maxTimestampMS : Int64
  nextSeq : UInt64
deriving DecidableEq

/-- The records of the segment. -/
def Writer.records (w : Writer) : List Record := w.sealing.flatMap (·.records) ++ w.active.elim [] (·.records)

/-- `New`; `sink` is whether there is one. -/
def new (cpus : Int) (random : Except Err (Arr 16)) (nowMS : Int64) (opts : Options) (sink : Bool) :
    Except Err Writer := do
  failIf (sink = false) (.of (.segwriter .invalidOptions) "sink is nil")
  let opts ← normalizeOptions cpus random nowMS opts
  return ⟨opts, [], some .empty, false, false, false, 0, 0, 0, 0, 0, 0⟩

/-! ## What comes from the seal workers, the emitter and the sink -/

/-- How a `select` on a channel, the caller's context and the writer's own context ends. The writer's
first error is read where the code reads it. -/
inductive Select where
  | served
  | cancelled (ctxErr : Err) (firstErr : Option Err)
  | stopped (firstErr : Option Err)
deriving DecidableEq

/-- During `Append`. `cleanup` is the error of aborting the packer. -/
structure AppendTurn where
  firstErr : Option Err
  take : Select
  enqueue : Select
  retake : Select
  cleanup : Option Err

structure CommittedObject where
  uri : String
  sizeBytes : UInt64
deriving DecidableEq

/-- The emitter's result: the number of index entries and the offset of the packer. -/
structure Emitted where
  index : Nat
  offset : UInt64

/-- Writing the index and the trailer and committing the object. -/
structure Committed where
  object : CommittedObject
  segmentHash : UInt64
  trailerHash : UInt64

/-- During `Close`. The emitter may end with no packer. -/
structure CloseTurn where
  firstErr : Option Err
  enqueue : Select
  ctxErr : Option Err
  emitted : Except Err (Option Emitted)
  lateErr : Option Err
  commit : Except Err Committed
  cleanup : Option Err

/-- Stop with `e` when `c` holds. -/
def stopIf {ε : Type} (c : Prop) [Decidable c] (e : ε) : Except ε Unit := if c then .error e else .ok ()

/-- Stop with the error there is, restated. -/
def stopOn {ε : Type} (err : Option Err) (f : Err → ε) : Except ε Unit :=
  match err with
  | some e => .error (f e)
  | none => .ok ()

/-- Keep the value, give the error its form. -/
def orFail {ε α : Type} (x : Except Err α) (f : Err → ε) : Except ε α :=
  match x with
  | .ok a => .ok a
  | .error e => .error (f e)

namespace Writer

variable (w : Writer)

/-- `abortWith`: the error, and the writer it leaves. -/
def abortWith (cleanup : Option Err) (err : Err) : Err × Writer :=
  (match cleanup with
    | none => err
    | some e => .join (some err) e, { w with aborted := true })

def validateRecord (r : Record) : Except Err Unit := do
  let _ ← recordSize r.headers r.value
  failIf (r.lsn > maxRecordLSN) (.of (.segwriter .lsnExhausted) s!"lsn={r.lsn} is reserved")
  if w.hasRecords = false then
    return
  failIf (w.nextLSN > maxRecordLSN) (.of (.segwriter .lsnExhausted) s!"next_lsn={w.nextLSN}")
  failIf (w.recordCount = maxRecordCount)
    (.of .invalidSegment s!"record_count={w.recordCount} max={maxRecordCount}")
  failIf (r.lsn ≠ w.nextLSN) (.of (.segwriter .nonContiguousLSN) s!"got={r.lsn} want={w.nextLSN}")
  failIf (r.timestampMS < w.maxTimestampMS)
    (.of (.segwriter .timestampOrder) s!"got={r.timestampMS} previous={w.maxTimestampMS}")

def appendCancellation (ctxErr : Err) (firstErr : Option Err) : Err :=
  match firstErr with
  | some err => err
  | none =>
    if w.aborted then .bare (.segwriter .writerAborted)
    else .under (.segwriter .appendNotAccepted) ctxErr

/-- The error of a `select` that was not served. -/
def selectErr : Select → Option Err
  | .served => none
  | .cancelled ctxErr firstErr => some (w.appendCancellation ctxErr firstErr)
  | .stopped firstErr => some (firstErr.getD (.bare (.segwriter .writerAborted)))

def takeFreeBuffer (select : Select) : Except Err Writer :=
  match w.selectErr select with
  | none => .ok { w with active := some .empty }
  | some err => .error err

def enqueueActive (select : Select) : Except Err Writer :=
  match w.active with
  | none => .ok w
  | some buf =>
    if buf.size = 0 then .ok w
    else match w.selectErr select with
      | none => .ok { w with
          sealing := w.sealing ++ [{ buf with seq := w.nextSeq }]
          nextSeq := w.nextSeq + 1
          active := none }
      | some err => .error err

end Writer

namespace BlockBuffer

def canAppend (b : BlockBuffer) (recordSize : Nat) (targetBlockSize : Int) : Bool :=
  if recordSize = 0 ∨ recordSize > maxRawBlockSize then false
  else if b.size + recordSize > maxRawBlockSize then false
  else if b.size = 0 then true
  else decide ((b.size + recordSize : Int) ≤ targetBlockSize)

def append (b : BlockBuffer) (r : Record) : Except Err BlockBuffer := do
  let recordSize ← recordSize r.headers r.value
  failIf (b.canAppend recordSize maxRawBlockSize = false)
    (.of .blockTooLarge s!"raw block size={b.size + recordSize} max={maxRawBlockSize}")
  failIf (b.recordCount ≠ 0 ∧ r.timestampMS < b.maxTimestampMS)
    (.of (.segwriter .timestampOrder) s!"got={r.timestampMS} previous={b.maxTimestampMS}")
  return { b with
    size := b.size + recordSize
    baseLSN := if b.recordCount = 0 then r.lsn else b.baseLSN
    minTimestampMS := if b.recordCount = 0 then r.timestampMS else b.minTimestampMS
    maxTimestampMS := r.timestampMS
    recordCount := b.recordCount + 1
    records := b.records ++ [r] }

end BlockBuffer

namespace Writer

variable (w : Writer)

/-- A cancelled wait leaves the writer as it is, any other failure aborts it. -/
def notAccepted (cleanup : Option Err) (err : Err) : Err × Writer :=
  if err.is (.segwriter .appendNotAccepted) then (err, w) else w.abortWith cleanup err

/-- A buffer, if there is none. -/
def ensureBuffer (t : AppendTurn) : Except (Err × Writer) Writer :=
  if w.active.isNone then orFail (w.takeFreeBuffer t.take) (w.notAccepted t.cleanup) else .ok w

/-- Hand the buffer over and take another, if the record does not fit. -/
def makeRoom (t : AppendTurn) (recordSize : Nat) : Except (Err × Writer) Writer := do
  match w.active with
  | none => .ok w
  | some buf =>
    if buf.size > 0 ∧ buf.canAppend recordSize w.opts.targetBlockSize = false then
      let w ← orFail (w.enqueueActive t.enqueue) (w.notAccepted t.cleanup)
      orFail (w.takeFreeBuffer t.retake) (w.notAccepted t.cleanup)
    else .ok w

/-- The record is in the block: count it. -/
def count (r : Record) (buf : BlockBuffer) : Writer :=
  { w with
    active := some buf
    hasRecords := true
    baseLSN := if w.hasRecords then w.baseLSN else r.lsn
    minTimestampMS := if w.hasRecords ∧ ¬r.timestampMS < w.minTimestampMS then w.minTimestampMS else r.timestampMS
    maxTimestampMS := r.timestampMS
    nextLSN := r.lsn + 1
    recordCount := w.recordCount + 1 }

def append (t : AppendTurn) (r : Record) : Except (Err × Writer) Writer := do
  stopIf (w.closed = true) (Err.bare (.segwriter .writerClosed), w)
  stopIf (w.aborted = true) (Err.bare (.segwriter .writerAborted), w)
  stopOn t.firstErr (w.abortWith t.cleanup)
  orFail (w.validateRecord r) (w.abortWith t.cleanup)
  let recordSize ← orFail (recordSize r.headers r.value) (w.abortWith t.cleanup)
  let w ← w.ensureBuffer t
  let w ← w.makeRoom t recordSize
  let buf ← orFail ((w.active.getD .empty).append r) (w.abortWith t.cleanup)
  return w.count r buf

end Writer

/-! ## Close and abort -/

structure Metadata where
  partition : UInt32
  baseLSN : UInt64
  lastLSN : UInt64
  minTimestampMS : Int64
  maxTimestampMS : Int64
  recordCount : UInt32
  blockCount : UInt32
  blockIndexOffset : UInt64
  blockIndexLength : UInt32
  segmentUUID : Arr 16
  codec : Codec
  hashAlgo : HashAlgo
  segmentHash : UInt64
  trailerHash : UInt64
deriving DecidableEq

structure Result where
  metadata : Metadata
  object : CommittedObject
deriving DecidableEq

def checkedBlockCount (n : Nat) : Except Err UInt32 := do
  failIf (n > maxBlockCount) (.of .invalidSegment s!"block_count={n} max={maxBlockCount}")
  return .ofNat n

def closeEnqueueError (ctxErr : Option Err) (err : Err) : Err :=
  if err.is (.segwriter .appendNotAccepted) then ctxErr.getD err else err

namespace Writer

variable (w : Writer)

/-- `trailer` and `metadataFromTrailer`. -/
def metadata (indexOffset : UInt64) (blockCount : UInt32) (c : Committed) : Metadata where
  partition := w.opts.partition
  baseLSN := w.baseLSN
  lastLSN := w.nextLSN - 1
  minTimestampMS := w.minTimestampMS
  maxTimestampMS := w.maxTimestampMS
  recordCount := w.recordCount
  blockCount := blockCount
  blockIndexOffset := indexOffset
  blockIndexLength := (.ofNat indexPreambleSize + blockCount.toUInt64 * .ofNat blockIndexEntrySize : UInt64).toUInt32
  segmentUUID := w.opts.segmentUUID
  codec := w.opts.codec
  hashAlgo := w.opts.hashAlgo
  segmentHash := c.segmentHash
  trailerHash := c.trailerHash

/-- From the emitter's result on. -/
def closeObject (t : CloseTurn) : Option Emitted → Except (Err × Writer) (Result × Writer)
  | none => .error (w.abortWith t.cleanup (.bare (.segwriter .emptySegment)))
  | some e => do
    let blockCount ← orFail (checkedBlockCount e.index) (w.abortWith t.cleanup)
    let c ← orFail t.commit (w.abortWith t.cleanup)
    return (⟨w.metadata e.offset blockCount c, c.object⟩, { w with closed := true })

def close (t : CloseTurn) : Except (Err × Writer) (Result × Writer) := do
  stopIf (w.closed = true) (Err.bare (.segwriter .writerClosed), w)
  stopIf (w.aborted = true) (Err.bare (.segwriter .writerAborted), w)
  stopOn t.firstErr (w.abortWith t.cleanup)
  stopIf (w.hasRecords = false) (w.abortWith t.cleanup (.bare (.segwriter .emptySegment)))
  let w ← orFail (w.enqueueActive t.enqueue) fun err => w.abortWith t.cleanup (closeEnqueueError t.ctxErr err)
  let emitted ← orFail t.emitted (w.abortWith t.cleanup)
  stopOn t.lateErr (w.abortWith t.cleanup)
  w.closeObject t emitted

/-- `cleanup` is the error of aborting the packer, if there is one. -/
def abort (cleanup : Option Err) : Option Err × Writer :=
  if w.closed then (none, w) else (cleanup, { w with aborted := true })

end Writer

/-! ## What the calls do -/

/-- A call ends well where `Q` holds of the value, and otherwise where `F` holds of the error. -/
def Ends {ε α : Type} (Q : α → Prop) (F : ε → Prop) : Except ε α → Prop
  | .ok a => Q a
  | .error e => F e

section Ends
variable {ε α β : Type} {Q : α → Prop} {R : β → Prop} {F : ε → Prop}

theorem ends_bind {x : Except ε α} {f : α → Except ε β} : Ends R F (x >>= f) ↔ Ends (fun a => Ends R F (f a)) F x := by
  cases x <;> rfl

theorem ends_stopIf {Q : Unit → Prop} {c : Prop} [Decidable c] {e : ε} :
    Ends Q F (stopIf c e) ↔ (c → F e) ∧ (¬c → Q ()) := by
  by_cases h : c <;> simp [stopIf, Ends, h]

theorem ends_failIf {Q : Unit → Prop} {F : Err → Prop} {c : Prop} [Decidable c] {e : Err} :
    Ends Q F (failIf c e) ↔ (c → F e) ∧ (¬c → Q ()) := by
  by_cases h : c <;> simp [failIf, Ends, h]

theorem Ends.error {F : Err → Prop} {x : Except Err α} {e : Err} (h : Ends Q F x) (he : x = .error e) : F e := by
  subst he
  exact h

theorem ends_stopOn {Q : Unit → Prop} {err : Option Err} {f : Err → ε} :
    Ends Q F (stopOn err f) ↔ (∀ e, err = some e → F (f e)) ∧ (err = none → Q ()) := by
  cases err <;> simp [stopOn, Ends]

theorem ends_orFail {x : Except Err α} {f : Err → ε} :
    Ends Q F (orFail x f) ↔ (∀ e, x = .error e → F (f e)) ∧ (∀ a, x = .ok a → Q a) := by
  cases x <;> simp [orFail, Ends]

theorem Ends.mono {Q' : α → Prop} {F' : ε → Prop} {x : Except ε α} (h : Ends Q F x) (hQ : ∀ a, Q a → Q' a)
    (hF : ∀ e, F e → F' e) : Ends Q' F' x := by
  cases x with
  | ok a => exact hQ a h
  | error e => exact hF e h

end Ends

variable {w w' : Writer} {r : Record}

/-- The records and what is said of them are the same; the buffers may differ. -/
structure SameRecords (w w' : Writer) : Prop where
  records : w'.records = w.records
  hasRecords : w'.hasRecords = w.hasRecords
  baseLSN : w'.baseLSN = w.baseLSN
  nextLSN : w'.nextLSN = w.nextLSN
  recordCount : w'.recordCount = w.recordCount
  closed : w'.closed = w.closed

/-- The record was taken. -/
structure Appended (w : Writer) (r : Record) (w' : Writer) : Prop where
  records : w'.records = w.records ++ [r]
  hasRecords : w'.hasRecords = true
  baseLSN : w'.baseLSN = if w.hasRecords then w.baseLSN else r.lsn
  nextLSN : w'.nextLSN = r.lsn + 1
  recordCount : w'.recordCount = w.recordCount + 1
  closed : w'.closed = w.closed
  room : r.lsn ≤ maxRecordLSN
  next : w.hasRecords = true → r.lsn = w.nextLSN ∧ w.recordCount ≠ maxRecordCount

theorem SameRecords.refl (w : Writer) : SameRecords w w := ⟨rfl, rfl, rfl, rfl, rfl, rfl⟩

theorem SameRecords.trans {u v w : Writer} (h : SameRecords u v) (h' : SameRecords v w) : SameRecords u w :=
  ⟨h'.records.trans h.records, h'.hasRecords.trans h.hasRecords, h'.baseLSN.trans h.baseLSN,
    h'.nextLSN.trans h.nextLSN, h'.recordCount.trans h.recordCount, h'.closed.trans h.closed⟩

theorem sameRecords_abortWith (w : Writer) (cleanup : Option Err) (err : Err) :
    SameRecords w (w.abortWith cleanup err).2 := ⟨rfl, rfl, rfl, rfl, rfl, rfl⟩

theorem sameRecords_notAccepted (w : Writer) (cleanup : Option Err) (err : Err) :
    SameRecords w (w.notAccepted cleanup err).2 := by
  unfold Writer.notAccepted
  split
  · exact .refl w
  · exact sameRecords_abortWith w cleanup err

/-- A free buffer is taken only where there is none. -/
theorem sameRecords_takeFreeBuffer {select : Select} (h : w.takeFreeBuffer select = .ok w') (hactive : w.active = none) :
    SameRecords w w' := by
  unfold Writer.takeFreeBuffer at h
  split at h
  · cases h
    exact ⟨by simp [Writer.records, hactive, BlockBuffer.empty], rfl, rfl, rfl, rfl, rfl⟩
  · cases h

/-- A buffer handed over keeps its place in the order. -/
theorem sameRecords_enqueueActive {select : Select} (h : w.enqueueActive select = .ok w') :
    SameRecords w w' ∧ (∀ buf, w.active = some buf → buf.size ≠ 0 → w'.active = none) := by
  unfold Writer.enqueueActive at h
  split at h
  · rename_i hnone
    cases h
    exact ⟨.refl w, fun buf hbuf => by simp [hnone] at hbuf⟩
  · rename_i buf hbuf
    split at h
    · rename_i hsize
      cases h
      exact ⟨.refl w, fun b hb hne => absurd hsize (by rw [hbuf] at hb; cases hb; exact hne)⟩
    · split at h
      · cases h
        exact ⟨⟨by simp [Writer.records, hbuf], rfl, rfl, rfl, rfl, rfl⟩, fun _ _ _ => rfl⟩
      · cases h

theorem ensureBuffer_ends (w : Writer) (t : AppendTurn) :
    Ends (SameRecords w) (fun e => SameRecords w e.2) (w.ensureBuffer t) := by
  unfold Writer.ensureBuffer
  split
  · rename_i hnone
    exact ends_orFail.2 ⟨fun e _ => sameRecords_notAccepted w _ e,
      fun w' h => sameRecords_takeFreeBuffer h (Option.isNone_iff_eq_none.1 hnone)⟩
  · exact SameRecords.refl w

theorem makeRoom_ends (w : Writer) (t : AppendTurn) (size : Nat) :
    Ends (SameRecords w) (fun e => SameRecords w e.2) (w.makeRoom t size) := by
  unfold Writer.makeRoom
  split
  · exact SameRecords.refl w
  · rename_i buf hbuf
    split
    · rename_i hfull
      rw [ends_bind, ends_orFail]
      refine ⟨fun e _ => sameRecords_notAccepted w _ e, fun w₁ h₁ => ?_⟩
      obtain ⟨hsame, hnone⟩ := sameRecords_enqueueActive h₁
      exact ends_orFail.2 ⟨fun e _ => hsame.trans (sameRecords_notAccepted w₁ _ e),
        fun w₂ h₂ => hsame.trans (sameRecords_takeFreeBuffer h₂ (hnone buf hbuf (by omega)))⟩
    · exact SameRecords.refl w

theorem BlockBuffer.append_records {b b' : BlockBuffer} (h : b.append r = .ok b') : b'.records = b.records ++ [r] := by
  simp only [BlockBuffer.append, checks_ok] at h
  obtain ⟨_, _, _, _, rfl⟩ := h
  rfl

theorem validateRecord_ok (h : w.validateRecord r = .ok ()) :
    r.lsn ≤ maxRecordLSN ∧ (w.hasRecords = true → r.lsn = w.nextLSN ∧ w.recordCount ≠ maxRecordCount) := by
  unfold Writer.validateRecord at h
  split at h
  · rename_i hno
    simp only [checks_ok] at h
    obtain ⟨_, _, hlsn, _⟩ := h
    exact ⟨UInt64.not_lt.1 hlsn, fun hyes => by simp [hno] at hyes⟩
  · simp only [checks_ok, not_not] at h
    obtain ⟨_, _, hlsn, _, hcount, hnext, _⟩ := h
    exact ⟨UInt64.not_lt.1 hlsn, fun _ => ⟨hnext, hcount⟩⟩

theorem SameRecords.count {buf : BlockBuffer} (h : SameRecords w w') (hbuf : (w'.active.getD .empty).append r = .ok buf)
    (hvalid : w.validateRecord r = .ok ()) : Appended w r (w'.count r buf) := by
  obtain ⟨hroom, hnext⟩ := validateRecord_ok hvalid
  refine ⟨?_, rfl, ?_, rfl, by simp [Writer.count, h.recordCount], h.closed, hroom, hnext⟩
  · have hold : w'.records = w'.sealing.flatMap (·.records) ++ (w'.active.getD .empty).records := by
      cases hactive : w'.active <;> simp [Writer.records, hactive, BlockBuffer.empty]
    rw [← h.records, hold]
    simp [Writer.count, Writer.records, BlockBuffer.append_records hbuf]
  · simp [Writer.count, h.hasRecords, h.baseLSN]

/-- `Append` takes the record, or leaves the records as they are. -/
theorem append_ends (w : Writer) (t : AppendTurn) (r : Record) :
    Ends (Appended w r) (fun e => SameRecords w e.2) (w.append t r) := by
  unfold Writer.append
  simp only [ends_bind, ends_stopIf, ends_stopOn, ends_orFail]
  refine ⟨fun _ => .refl w, fun _ => ⟨fun _ => .refl w, fun _ => ⟨fun e _ => sameRecords_abortWith w _ e, fun _ =>
    ⟨fun e _ => sameRecords_abortWith w _ e, fun _ hvalid => ⟨fun e _ => sameRecords_abortWith w _ e, fun size _ => ?_⟩⟩⟩⟩⟩
  refine (ensureBuffer_ends w t).mono (fun w₁ h₁ => ?_) fun _ h => h
  refine (makeRoom_ends w₁ t size).mono (fun w₂ h₂ => ?_) fun _ h => h₁.trans h
  have hsame := h₁.trans h₂
  exact ⟨fun e _ => hsame.trans (sameRecords_abortWith w₂ _ e), fun buf hbuf => hsame.count hbuf hvalid⟩

/-- A closed segment was open and not aborted; its metadata is that of its records. -/
structure Closed (w : Writer) (result : Result) (w' : Writer) : Prop where
  hasRecords : w.hasRecords = true
  closed : w'.closed = true
  aborted : w'.aborted = false
  records : w'.records = w.records
  baseLSN : result.metadata.baseLSN = w.baseLSN
  lastLSN : result.metadata.lastLSN = w.nextLSN - 1

theorem close_ok {t : CloseTurn} {result : Result} (h : w.close t = .ok (result, w')) : Closed w result w' := by
  have hends : Ends (fun p => Closed w p.1 p.2) (fun _ => True) (w.close t) := by
    unfold Writer.close
    simp only [ends_bind, ends_stopIf, ends_stopOn, ends_orFail]
    refine ⟨fun _ => trivial, fun _ => ⟨fun _ => trivial, fun haborted => ⟨fun _ _ => trivial, fun _ =>
      ⟨fun _ => trivial, fun hrecords => ⟨fun _ _ => trivial, fun w₁ h₁ => ⟨fun _ _ => trivial, fun emitted _ =>
        ⟨fun _ _ => trivial, fun _ => ?_⟩⟩⟩⟩⟩⟩⟩
    obtain ⟨hsame, -⟩ := sameRecords_enqueueActive h₁
    have haborted₁ : w₁.aborted = false := by
      unfold Writer.enqueueActive at h₁
      repeat' split at h₁
      all_goals
        cases h₁
        try exact Bool.not_eq_true _ ▸ haborted
    cases emitted with
    | none => trivial
    | some e =>
      simp only [Writer.closeObject, ends_bind, ends_orFail]
      refine ⟨fun _ _ => trivial, fun blockCount _ => ⟨fun _ _ => trivial, fun c _ => ?_⟩⟩
      exact ⟨by simpa using hrecords, rfl, haborted₁, hsame.records, hsame.baseLSN, by simp [Writer.metadata, hsame.nextLSN]⟩
  rw [h] at hends
  exact hends

/-! ## The records of a segment are numbered -/

/-- The number of a record. -/
def Record.number (r : Record) : Nat := r.lsn.toNat

/-- The records are counted, and numbered from `baseLSN` to `nextLSN`. -/
structure Writer.Numbered (w : Writer) : Prop where
  count : w.recordCount.toNat = w.records.length
  none : w.hasRecords = false → w.records = []
  some : w.hasRecords = true →
    w.records ≠ [] ∧ Tiles Record.number Record.number w.baseLSN.toNat w.nextLSN.toNat w.records

theorem new_numbered {cpus : Int} {random : Except Err (Arr 16)} {nowMS : Int64} {opts : Options} {sink : Bool}
    (h : new cpus random nowMS opts sink = .ok w) :
    w.Numbered ∧ w.records = [] ∧ w.hasRecords = false ∧ w.closed = false := by
  simp only [new, checks_ok] at h
  obtain ⟨_, _, _, rfl⟩ := h
  exact ⟨⟨rfl, fun _ => rfl, by simp⟩, rfl, rfl, rfl⟩

theorem SameRecords.numbered (h : SameRecords w w') (hw : w.Numbered) : w'.Numbered := by
  refine ⟨by rw [h.recordCount, h.records, hw.count], fun hno => ?_, fun hyes => ?_⟩
  · rw [h.records]
    exact hw.none (h.hasRecords ▸ hno)
  · rw [h.records, h.baseLSN, h.nextLSN]
    exact hw.some (h.hasRecords ▸ hyes)

theorem Appended.numbered (h : Appended w r w') (hw : w.Numbered) : w'.Numbered := by
  have hroom := UInt64.le_iff_toNat_le.1 h.room
  have hsucc : (r.lsn + 1).toNat = r.number + 1 := by
    simp only [maxRecordLSN, UInt64.reduceToNat] at hroom
    simp only [UInt64.toNat_add, Record.number, UInt64.reduceToNat]
    omega
  have hcount : w.recordCount.toNat < 4294967295 := by
    cases hhas : w.hasRecords with
    | false => simp [hw.count, hw.none hhas]
    | true =>
      have hne : w.recordCount.toNat ≠ maxRecordCount.toNat := fun heq => (h.next hhas).2 (UInt32.toNat_inj.1 heq)
      have hlt := w.recordCount.toNat_lt
      simp only [maxRecordCount, UInt32.reduceToNat] at hne
      omega
  refine ⟨?_, fun hno => by simp [h.hasRecords] at hno, fun _ => ⟨by simp [h.records], ?_⟩⟩
  · simp only [h.recordCount, h.records, UInt32.toNat_add, UInt32.reduceToNat, List.length_append, List.length_singleton,
      ← hw.count]
    omega
  rw [h.records, h.baseLSN, h.nextLSN, hsucc]
  cases hhas : w.hasRecords with
  | false =>
    rw [hw.none hhas]
    simp [Record.number]
  | true =>
    refine Tiles.append_iff.2 ⟨_, (hw.some hhas).2, ?_⟩
    simp [Record.number, (h.next hhas).1]

end ObjLog.Segwriter
