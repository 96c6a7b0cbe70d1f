import ObjLog.Lib.Checked
import Mathlib.Data.List.Forall2
/-!
# Errors and hash functions

A Go error is the sentinels `errors.Is` finds in it and its text. The hash
functions the repository takes from libraries are the fields of `Hashes`:
every definition and theorem holds for any functions of these types.
-/

namespace ObjLog

open Lib

/-- `segwriter/errors.go`, as far as the modelled code returns them. -/
inductive SegwriterSentinel where
  | invalidOptions | writerClosed | writerAborted | appendNotAccepted | emptySegment | nonContiguousLSN
  | lsnExhausted | timestampOrder | bodySealed | bodyNotSealed | emptyObject | sinkContract | txnCommitIndeterminate
deriving DecidableEq, Repr

def SegwriterSentinel.text : SegwriterSentinel → String
  | invalidOptions => "segwriter: invalid options"
  | writerClosed => "segwriter: writer closed"
  | writerAborted => "segwriter: writer aborted"
  | appendNotAccepted => "segwriter: append canceled before record acceptance"
  | emptySegment => "segwriter: empty segment"
  | nonContiguousLSN => "segwriter: non-contiguous lsn"
  | lsnExhausted => "segwriter: lsn range exhausted"
  | timestampOrder => "segwriter: timestamp regression"
  | bodySealed => "segwriter: body already sealed"
  | bodyNotSealed => "segwriter: body not sealed"
  | emptyObject => "segwriter: empty object"
  | sinkContract => "segwriter: sink contract violation"
  | txnCommitIndeterminate => "segwriter: transaction commit outcome unknown"

/-- `writer/errors.go`. -/
inductive WriterSentinel where
  | invalidOptions | recordExceedsInflightBudget | invalidSession | closed | aborted | timestampOrder | lsnExhausted
  | segmentStartFailed | segmentWriteFailed | segmentCommitIndeterminate | staleWriter | publishFailed
  | publishIndeterminate | invalidPublishResult | retentionUnsupported | retentionFailed | retentionIndeterminate
  | reservationExceedsLimit
deriving DecidableEq, Repr

def WriterSentinel.text : WriterSentinel → String
  | invalidOptions => "writer: invalid options"
  | recordExceedsInflightBudget => "writer: record exceeds inflight byte budget"
  | invalidSession => "writer: invalid session"
  | closed => "writer: writer closed"
  | aborted => "writer: writer aborted"
  | timestampOrder => "writer: timestamp regression"
  | lsnExhausted => "writer: lsn exhausted"
  | segmentStartFailed => "writer: segment start failed"
  | segmentWriteFailed => "writer: segment write failed"
  | segmentCommitIndeterminate => "writer: segment commit outcome unknown"
  | staleWriter => "writer: stale writer"
  | publishFailed => "writer: publish failed"
  | publishIndeterminate => "writer: publish outcome unknown"
  | invalidPublishResult => "writer: invalid publish result"
  | retentionUnsupported => "writer: retention unsupported"
  | retentionFailed => "writer: retention failed"
  | retentionIndeterminate => "writer: retention outcome unknown"
  | reservationExceedsLimit => "writer: reservation exceeds configured limit"

/-- `reader/errors.go`, `reader/api.go` and `reader/load_group.go`. -/
inductive ReaderSentinel where
  | closed | invalidOptions | invalidRequest | lsnExpired | lsnExhausted | corruptData | storeRead
  | checkpointInvalid | checkpointMismatch | checkpointAhead | watchClosed | partitionNotWatched | noLoadWaiters
deriving DecidableEq, Repr

def ReaderSentinel.text : ReaderSentinel → String
  | closed => "objlog/reader: reader closed"
  | invalidOptions => "objlog/reader: invalid options"
  | invalidRequest => "objlog/reader: invalid request"
  | lsnExpired => "objlog/reader: lsn expired"
  | lsnExhausted => "objlog/reader: lsn exhausted"
  | corruptData => "objlog/reader: corrupt data"
  | storeRead => "objlog/reader: store read failed"
  | checkpointInvalid => "objlog/reader: invalid cursor checkpoint"
  | checkpointMismatch => "objlog/reader: cursor checkpoint mismatch"
  | checkpointAhead => "objlog/reader: cursor checkpoint is ahead of head"
  | watchClosed => "objlog/reader: watch closed"
  | partitionNotWatched => "objlog/reader: partition not watched"
  | noLoadWaiters => "objlog/reader: shared load has no waiters"

/-- `segreader/errors.go`. -/
inductive SegreaderSentinel where
  | invalidOptions | invalidSegment | storeRead | corruptData
deriving DecidableEq, Repr

def SegreaderSentinel.text : SegreaderSentinel → String
  | invalidOptions => "objlog/segreader: invalid options"
  | invalidSegment => "objlog/segreader: invalid segment"
  | storeRead => "objlog/segreader: store read failed"
  | corruptData => "objlog/segreader: corrupt data"

/-- The errors of `segformat/errors.go` that only the segment format uses. -/
inductive SegformatSentinel where
  | unsupportedVersion | unsupportedRecord | integrityMismatch | blockIndexMismatch
deriving DecidableEq, Repr

def SegformatSentinel.text : SegformatSentinel → String
  | unsupportedVersion => "segformat: unsupported version"
  | unsupportedRecord => "segformat: unsupported record format"
  | integrityMismatch => "segformat: integrity mismatch"
  | blockIndexMismatch => "segformat: block index mismatch"

/-- `lifecycle/types.go`. -/
inductive LifecycleSentinel where
  | invalidOptions | leaseHeld | leaseLost | corruptState
deriving DecidableEq, Repr

def LifecycleSentinel.text : LifecycleSentinel → String
  | invalidOptions => "lifecycle: invalid options"
  | leaseHeld => "lifecycle: lease held"
  | leaseLost => "lifecycle: lease lost"
  | corruptState => "lifecycle: corrupt state"

/-- `blob/sink/stream/stream.go`. -/
inductive StreamSentinel where
  | invalidOptions | closed | aborted | emptyUpload | limitExceeded | commitInProgress | commitIndeterminate
  | backendContract
deriving DecidableEq, Repr

def StreamSentinel.text : StreamSentinel → String
  | invalidOptions => "blob/sink/stream: invalid options"
  | closed => "blob/sink/stream: upload closed"
  | aborted => "blob/sink/stream: upload aborted"
  | emptyUpload => "blob/sink/stream: empty upload"
  | limitExceeded => "blob/sink/stream: provider limit exceeded"
  | commitInProgress => "blob/sink/stream: commit in progress"
  | commitIndeterminate => "blob/sink/stream: commit outcome indeterminate"
  | backendContract => "blob/sink/stream: backend contract violation"

/-- `blob/sink/multipart/multipart.go`. -/
inductive MultipartSentinel where
  | invalidStore | cleaned | committed | partConflict | commitInProgress | commitIndeterminate | preconditionFailed
deriving DecidableEq, Repr

def MultipartSentinel.text : MultipartSentinel → String
  | invalidStore => "blob/sink/multipart: invalid store request"
  | cleaned => "blob/sink/multipart: session cleaned"
  | committed => "blob/sink/multipart: session committed"
  | partConflict => "blob/sink/multipart: part identity conflict"
  | commitInProgress => "blob/sink/multipart: commit in progress"
  | commitIndeterminate => "blob/sink/multipart: commit outcome indeterminate"
  | preconditionFailed => "blob/sink/multipart: final object precondition failed"

/-- The sentinel errors, `catalog/errors.go`, `catformat/constants.go`,
`blobstore`, `segformat`, the writers, the readers, `lifecycle`, the sink and the context errors.
`ErrCorruptCatalog` is `blobstore.ErrInvalidRequest`. -/
inductive Sentinel where
  | invalidRequest | conflict | staleWriter | fenceExhausted | fenceIndeterminate
  | generationExhausted | commitIndeterminate | timestampOrder | retentionRegression
  | invalidObject | unsupportedVersion | unsupportedLayout | integrityMismatch
  | objectNotFound | immutableConflict | corruptCatalog
  | unsupportedCodec | unsupportedHashAlgo | indexFull | invalidStreamID | canceled | transport
  | invalidSegment | recordTooLarge | blockTooLarge | deadlineExceeded
  | segwriter (s : SegwriterSentinel) | writer (s : WriterSentinel) | reader (s : ReaderSentinel)
  | segreader (s : SegreaderSentinel) | segformat (s : SegformatSentinel) | lifecycle (s : LifecycleSentinel)
  | stream (s : StreamSentinel) | multipart (s : MultipartSentinel)
deriving DecidableEq, Repr

def Sentinel.text : Sentinel → String
  | invalidRequest => "catalog: invalid request"
  | conflict => "catalog: conflict"
  | staleWriter => "catalog: stale writer"
  | fenceExhausted => "catalog: writer fence exhausted"
  | fenceIndeterminate => "catalog: writer fence outcome unknown"
  | generationExhausted => "catalog: generation exhausted"
  | commitIndeterminate => "catalog: commit outcome unknown"
  | timestampOrder => "catalog: timestamp regression"
  | retentionRegression => "catalog: retention regression"
  | invalidObject => "catformat: invalid object"
  | unsupportedVersion => "catformat: unsupported version"
  | unsupportedLayout => "catformat: unsupported segment layout"
  | integrityMismatch => "catformat: integrity mismatch"
  | objectNotFound => "blobstore: object not found"
  | immutableConflict => "blobstore: immutable object conflict"
  | corruptCatalog => "blobstore: invalid request"
  | unsupportedCodec => "segformat: unsupported codec"
  | unsupportedHashAlgo => "segformat: unsupported hash algorithm"
  | indexFull => "catengine: index full"
  | invalidStreamID => "keylayout: invalid stream ID"
  | canceled => "context canceled"
  | transport => "transport error"
  | invalidSegment => "segformat: invalid segment"
  | recordTooLarge => "segformat: record too large"
  | blockTooLarge => "segformat: block too large"
  | deadlineExceeded => "context deadline exceeded"
  | segwriter s | writer s | reader s | segreader s | segformat s | lifecycle s | stream s | multipart s => s.text

structure Err where
  sentinels : List Sentinel
  text : String
deriving DecidableEq, Repr

namespace Err

/-- `errors.Is(err, s)`. -/
def is (e : Err) (s : Sentinel) : Bool := e.sentinels.contains s

/-- `fmt.Errorf(text)` with nothing wrapped. -/
def plain (text : String) : Err := ⟨[], text⟩

/-- `fmt.Errorf("%w: ...", s, ...)`. -/
def of (s : Sentinel) (text : String) : Err := ⟨[s], s.text ++ ": " ++ text⟩

/-- The bare sentinel. -/
def bare (s : Sentinel) : Err := ⟨[s], s.text⟩

/-- `fmt.Errorf("...: %w", ..., e)`. -/
def within (text : String) (e : Err) : Err := ⟨e.sentinels, text ++ ": " ++ e.text⟩

/-- `fmt.Errorf("%w: ...: %w", s, ..., e)`. -/
def ofWithin (s : Sentinel) (text : String) (e : Err) : Err :=
  ⟨s :: e.sentinels, s.text ++ ": " ++ text ++ ": " ++ e.text⟩

/-- `fmt.Errorf("%w: %w", s, e)`. -/
def under (s : Sentinel) (e : Err) : Err := ⟨s :: e.sentinels, s.text ++ ": " ++ e.text⟩

/-- `errors.Join(a, b)` where `a` may be nil. -/
def join (a : Option Err) (b : Err) : Err :=
  match a with
  | none => b
  | some a => ⟨a.sentinels ++ b.sentinels, a.text ++ "\n" ++ b.text⟩

end Err

/-- Stop with `e` when `c` holds. -/
def failIf (c : Prop) [Decidable c] (e : Err) : Except Err Unit := if c then .error e else .ok ()

/-- Keep the value, restate the error. -/
def restate {α : Type} (x : Except Err α) (f : Err → Err) : Except Err α :=
  match x with
  | .ok a => .ok a
  | .error e => .error (f e)

section Except
variable {α β : Type}

@[simp] theorem exists_unit {p : Unit → Prop} : (∃ u, p u) ↔ p () :=
  ⟨fun ⟨_, h⟩ => h, fun h => ⟨_, h⟩⟩

@[simp] theorem failIf_ok (c : Prop) [Decidable c] (e : Err) (u : Unit) : failIf c e = .ok u ↔ ¬c := by
  by_cases h : c <;> simp [failIf, h]

@[simp] theorem restate_ok (x : Except Err α) (f : Err → Err) (a : α) : restate x f = .ok a ↔ x = .ok a := by
  cases x <;> simp [restate]

/-- A sequence succeeds when both parts do. -/
@[simp] theorem bind_ok {x : Except Err α} {f : α → Except Err β} {b : β} :
    (x >>= f) = .ok b ↔ ∃ a, x = .ok a ∧ f a = .ok b := by
  cases x <;> simp [bind, Except.bind]

@[simp] theorem map_ok {x : Except Err α} {f : α → β} {b : β} : (f <$> x) = .ok b ↔ ∃ a, x = .ok a ∧ f a = b := by
  cases x <;> simp [Functor.map, Except.map]

@[simp] theorem pure_ok {a b : α} : (pure a : Except Err α) = .ok b ↔ a = b := by
  simp [pure, Except.pure]

@[simp] theorem throw_ok {e : Err} {b : α} : (throw e : Except Err α) = .ok b ↔ False := by
  simp [throw, throwThe, MonadExceptOf.throw]

/-- What it says that a run of checks succeeds. -/
theorem checks_ok : (∀ {α β : Type} {x : Except Err α} {f : α → Except Err β} {b : β},
      (x >>= f) = .ok b ↔ ∃ a, x = .ok a ∧ f a = .ok b) ∧
    (∀ (c : Prop) [Decidable c] (e : Err) (u : Unit), failIf c e = .ok u ↔ ¬c) ∧
    (∀ {α : Type} (x : Except Err α) (f : Err → Err) (a : α), restate x f = .ok a ↔ x = .ok a) ∧
    (∀ {p : Unit → Prop}, (∃ u, p u) ↔ p ()) ∧ (∀ {α : Type} {a b : α}, (pure a : Except Err α) = .ok b ↔ a = b) ∧
    ∀ {α β : Type} {a c : α} {b d : β}, (a, b) = (c, d) ↔ a = c ∧ b = d :=
  ⟨bind_ok, failIf_ok, restate_ok, exists_unit, pure_ok, Prod.mk_inj⟩

/-- A loop that collects results succeeds when every turn does. -/
theorem mapM_ok (f : α → Except Err β) (l : List α) (ys : List β) :
    l.mapM f = .ok ys ↔ List.Forall₂ (fun a b => f a = .ok b) l ys := by
  induction l generalizing ys with
  | nil => cases ys <;> simp
  | cons a l ih =>
    simp only [List.mapM_cons, checks_ok, ih]
    constructor
    · rintro ⟨b, hb, bs, hbs, rfl⟩
      exact .cons hb hbs
    · rintro (_ | ⟨hb, hbs⟩)
      exact ⟨_, hb, _, hbs, rfl⟩

end Except

/-! ## Where slices are checked -/

namespace Lib.Checked

/-- Stop with `e` when `c` holds. -/
def failIf (c : Prop) [Decidable c] (e : Err) : Checked Err Unit := .of (ObjLog.failIf c e)

theorem failIf_bind {β : Type} {c : Prop} [Decidable c] {e : Err} {k : Unit → Checked Err β} {k' : Unit → Except Err β}
    (h : ¬c → k () = .of (k' ())) : (failIf c e >>= k) = .of (ObjLog.failIf c e >>= k') :=
  bind_of fun _ hok => h ((failIf_ok c e ()).1 hok)

theorem mapError_restate {α : Type} (f : Err → Err) (x : Except Err α) : mapError f (.of x) = .of (restate x f) := by
  cases x <;> rfl

end Lib.Checked

/-- SHA-256, CRC-32C and XXH64 as the code uses them. -/
class Hashes where
  sha256 : Bytes → Arr 32
  crc32c : Bytes → UInt32
  xxh64 : Bytes → UInt64

end ObjLog
