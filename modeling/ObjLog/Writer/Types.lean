import ObjLog.Pmeta
import ObjLog.Segwriter
/-!
# The partition writer's data, `writer/types.go` and the checks of `writer.go`

Options, snapshots, the segments on their way to the catalog, and the pure
functions over them. Times are nanoseconds since Go's zero time; durations in
error texts are given in nanoseconds.
-/

namespace ObjLog.Pmeta

def SegmentRef.nextLSN (s : SegmentRef) : UInt64 := s.lastLSN + 1

end ObjLog.Pmeta

namespace ObjLog.Writer

open Lib Catformat Pmeta

abbrev Time := Int

/-- `time.Time.UnixMilli`. -/
def unixMilli (t : Time) : Int64 := .ofInt ((t - 62135596800000000000) / 1000000)

/-! ## Options -/

def defaultMaxSegmentRecords : UInt32 := 16384
def defaultMaxSegmentRawBytes : UInt64 := 67108864
def defaultMaxInflightSegments : Int := 4
def defaultMaxInflightBytes : UInt64 := 268435456
def defaultSegmentFinalizeTimeout : Int := 300000000000
def defaultCatalogPublishTimeout : Int := 30000000000

structure RollPolicy where
  maxSegmentRecords : UInt32
  maxSegmentRawBytes : UInt64
  maxSegmentAge : Int

structure QueuePolicy where
  maxInflightSegments : Int
  maxInflightBytes : UInt64

structure OperationTimeouts where
  segmentFinalize : Int
  catalogPublish : Int

/-- Which of the optional interfaces a session has. -/
structure SessionKind where
  retention : Bool
  reconciler : Bool

/-- `sinkFactory` is whether one is set; clock and UUID generator are outside in any case. -/
structure Options where
  session : Option SessionKind
  sinkFactory : Bool
  segmentOptions : Segwriter.Options
  roll : RollPolicy
  queue : QueuePolicy
  timeouts : OperationTimeouts

def satAdd (a b : UInt64) : UInt64 := if maxUint64 - a < b then maxUint64 else a + b

def satMul (a b : UInt64) : UInt64 :=
  if a = 0 ∨ b = 0 then 0 else if a > maxUint64 / b then maxUint64 else a * b

def estimateInflightBytes (rawBytes : UInt64) (records : UInt32) (codec : Codec) : UInt64 :=
  let storedUpper := if codec = .zstd ∧ rawBytes > 0 then satAdd rawBytes ((rawBytes + 3) / 4) else rawBytes
  let blockCountUpper : UInt64 := if records = 0 then 1 else records.toUInt64
  let perBlockOverhead : UInt64 := .ofNat (Segformat.blockPreambleSize + Segformat.blockIndexEntrySize)
  let fixedOverhead : UInt64 :=
    .ofNat (Segformat.filePreambleSize + Segformat.indexPreambleSize + Segformat.trailerSize)
  satAdd fixedOverhead (satAdd storedUpper (satMul perBlockOverhead blockCountUpper))

def normalizeRoll (roll : RollPolicy) : RollPolicy :=
  { roll with
    maxSegmentRecords := if roll.maxSegmentRecords = 0 then defaultMaxSegmentRecords else roll.maxSegmentRecords
    maxSegmentRawBytes := if roll.maxSegmentRawBytes = 0 then defaultMaxSegmentRawBytes else roll.maxSegmentRawBytes }

def normalizeQueue (queue : QueuePolicy) : QueuePolicy where
  maxInflightSegments :=
    if queue.maxInflightSegments = 0 then defaultMaxInflightSegments else queue.maxInflightSegments
  maxInflightBytes := if queue.maxInflightBytes = 0 then defaultMaxInflightBytes else queue.maxInflightBytes

def normalizeTimeouts (timeouts : OperationTimeouts) : OperationTimeouts where
  segmentFinalize :=
    if timeouts.segmentFinalize = 0 then defaultSegmentFinalizeTimeout else timeouts.segmentFinalize
  catalogPublish := if timeouts.catalogPublish = 0 then defaultCatalogPublishTimeout else timeouts.catalogPublish

def normalizeOptionsForPartition (cpus : Int) (opts : Options) (partition : UInt32) : Except Err Options := do
  failIf (opts.sinkFactory = false) (.of (.writer .invalidOptions) "sink factory is nil")
  let segmentOptions :=
    if opts.segmentOptions = .zero then Segwriter.defaultOptions cpus partition else opts.segmentOptions
  let roll := normalizeRoll opts.roll
  failIf (opts.roll.maxSegmentAge < 0)
    (.of (.writer .invalidOptions) s!"negative max segment age {opts.roll.maxSegmentAge}ns")
  let queue := normalizeQueue opts.queue
  failIf (queue.maxInflightSegments < 0)
    (.of (.writer .invalidOptions) s!"negative max inflight segments {queue.maxInflightSegments}")
  let maxSegmentBytes := estimateInflightBytes roll.maxSegmentRawBytes roll.maxSegmentRecords segmentOptions.codec
  failIf (maxSegmentBytes > queue.maxInflightBytes)
    (.of (.writer .invalidOptions)
      s!"maximum segment estimate={maxSegmentBytes} exceeds max_inflight_bytes={queue.maxInflightBytes}")
  let timeouts := normalizeTimeouts opts.timeouts
  failIf (timeouts.segmentFinalize < 0)
    (.of (.writer .invalidOptions) s!"negative segment finalize timeout {timeouts.segmentFinalize}ns")
  failIf (timeouts.catalogPublish < 0)
    (.of (.writer .invalidOptions) s!"negative catalog publish timeout {timeouts.catalogPublish}ns")
  return { opts with
    segmentOptions := { segmentOptions with partition := partition }
    roll := roll
    queue := queue
    timeouts := timeouts }

/-! ## Snapshots -/

structure WriterIdentity where
  epoch : UInt64
  tag : Arr 16
deriving DecidableEq

/-- `%+v` of an identity. -/
def WriterIdentity.text (i : WriterIdentity) : String :=
  "\x7bEpoch:" ++ toString i.epoch ++ " Tag:[" ++ " ".intercalate (i.tag.bytes.map toString) ++ "]\x7d"

structure Snapshot where
  head : PartitionHead
  identity : WriterIdentity
deriving DecidableEq

structure PublishRequest where
  expectedNextLSN : UInt64
  segment : SegmentRef

structure RetentionResult where
  snapshot : Snapshot
  policyVersion : UInt64
  requestedLSN : UInt64
  applied : Bool

def invalidSession (text : String) : Err := .of (.writer .invalidSession) text

def validateHead (head : PartitionHead) : Except Err Unit := do
  failIf (head.writerEpoch = 0) (invalidSession "empty head writer epoch")
  failIf (head.nextLSN < head.oldestLSN) (invalidSession s!"next_lsn={head.nextLSN} oldest_lsn={head.oldestLSN}")
  failIf (head.reachableSegmentCount > head.segmentCount)
    (invalidSession
      s!"reachable_segment_count={head.reachableSegmentCount} exceeds segment_count={head.segmentCount}")
  if head.hasLastSegment = false then
    failIf (head.segmentCount ≠ 0) (invalidSession s!"segment_count={head.segmentCount} without last segment")
    failIf (head.reachableSegmentCount ≠ 0)
      (invalidSession s!"reachable_segment_count={head.reachableSegmentCount} without last segment")
  else
    failIf (head.segmentCount = 0) (invalidSession "missing segment count for last segment")
    restate head.lastSegment.validate (.ofWithin (.writer .invalidSession) "last segment")
    failIf (head.lastSegment.streamID ≠ head.streamID)
      (invalidSession
        s!"head stream_id={head.streamID.quote} last segment stream_id={head.lastSegment.streamID.quote}")
    failIf (head.lastSegment.partition ≠ head.partition)
      (invalidSession s!"head partition={head.partition} last segment partition={head.lastSegment.partition}")
    failIf (head.nextLSN ≠ head.lastSegment.nextLSN)
      (invalidSession s!"next_lsn={head.nextLSN} last_segment_next_lsn={head.lastSegment.nextLSN}")

def validateSnapshot (snapshot : Snapshot) : Except Err Unit := do
  failIf (snapshot.identity.epoch = 0) (invalidSession "empty writer epoch")
  validateHead snapshot.head
  failIf (snapshot.identity.epoch < snapshot.head.writerEpoch)
    (.of (.writer .staleWriter) s!"writer_epoch={snapshot.identity.epoch} current={snapshot.head.writerEpoch}")
  failIf (snapshot.identity.epoch > snapshot.head.writerEpoch)
    (invalidSession s!"writer_epoch={snapshot.identity.epoch} current={snapshot.head.writerEpoch}")

def invalidPublishResult (text : String) : Err := .of (.writer .invalidPublishResult) text

def validatePublishedSnapshot (current next : Snapshot) (segment : SegmentRef) : Except Err Unit := do
  restate (validateHead next.head) (.under (.writer .invalidPublishResult))
  failIf (segment.baseLSN ≠ current.head.nextLSN)
    (invalidPublishResult s!"segment base_lsn={segment.baseLSN} current_next_lsn={current.head.nextLSN}")
  failIf (current.head.segmentCount = maxUint64) (invalidPublishResult "segment count exhausted")
  failIf (next.head.partition ≠ current.head.partition)
    (invalidPublishResult s!"partition={next.head.partition} current_partition={current.head.partition}")
  failIf (next.head.streamID ≠ current.head.streamID)
    (invalidPublishResult
      s!"stream_id={next.head.streamID.quote} current_stream_id={current.head.streamID.quote}")
  failIf (next.identity ≠ current.identity)
    (invalidPublishResult s!"identity changed from {current.identity.text} to {next.identity.text}")
  failIf (next.head.writerEpoch ≠ current.identity.epoch)
    (invalidPublishResult s!"head writer_epoch={next.head.writerEpoch} identity epoch={current.identity.epoch}")
  failIf (next.head.segmentCount ≠ current.head.segmentCount + 1)
    (invalidPublishResult s!"segment_count={next.head.segmentCount} want={current.head.segmentCount + 1}")
  failIf (next.head.reachableSegmentCount ≠ current.head.reachableSegmentCount + 1)
    (invalidPublishResult
      s!"reachable_segment_count={next.head.reachableSegmentCount} want={current.head.reachableSegmentCount + 1}")
  failIf (next.head.oldestLSN ≠ current.head.oldestLSN)
    (invalidPublishResult
      s!"publish changed oldest_lsn from {current.head.oldestLSN} to {next.head.oldestLSN}")
  failIf (next.head.appliedRetentionLSN ≠ current.head.appliedRetentionLSN)
    (invalidPublishResult "publish changed applied_retention_lsn")
  failIf (next.head.appliedRetentionVersion ≠ current.head.appliedRetentionVersion)
    (invalidPublishResult "publish changed applied_retention_version")
  failIf (next.head.hasLastSegment = false) (invalidPublishResult "missing last segment")
  failIf (next.head.lastSegment ≠ segment)
    (invalidPublishResult "published segment does not match returned last segment")
  failIf (next.head.nextLSN ≠ segment.nextLSN)
    (invalidPublishResult s!"next_lsn={next.head.nextLSN} segment_next_lsn={segment.nextLSN}")

def validateRetentionSnapshot (current : Snapshot) (result : RetentionResult) : Except Err Unit := do
  let next := result.snapshot
  restate (validateHead next.head) (.under (.writer .invalidPublishResult))
  failIf (next.identity ≠ current.identity) (invalidPublishResult "retention changed writer identity")
  failIf (next.head.streamID ≠ current.head.streamID) (invalidPublishResult "retention changed stream_id")
  failIf (next.head.partition ≠ current.head.partition) (invalidPublishResult "retention changed partition")
  failIf (next.head.nextLSN ≠ current.head.nextLSN)
    (invalidPublishResult s!"retention changed next_lsn from {current.head.nextLSN} to {next.head.nextLSN}")
  failIf (next.head.segmentCount ≠ current.head.segmentCount) (invalidPublishResult "retention changed segment_count")
  failIf (next.head.reachableSegmentCount > current.head.reachableSegmentCount)
    (invalidPublishResult s!"retention increased reachable_segment_count from {current.head.reachableSegmentCount} to {next.head.reachableSegmentCount}")
  failIf (next.head.hasLastSegment ≠ current.head.hasLastSegment ∨ next.head.lastSegment ≠ current.head.lastSegment)
    (invalidPublishResult "retention changed last segment")
  failIf (next.head.oldestLSN < current.head.oldestLSN) (invalidPublishResult "retention moved oldest_lsn backward")
  failIf (next.head.appliedRetentionVersion < current.head.appliedRetentionVersion)
    (invalidPublishResult "retention version moved backward")
  failIf (next.head.appliedRetentionLSN < current.head.appliedRetentionLSN)
    (invalidPublishResult "retention lsn moved backward")
  if result.applied then
    failIf (result.policyVersion = 0 ∨ next.head.appliedRetentionVersion ≠ result.policyVersion)
      (invalidPublishResult "applied retention policy version mismatch")
    failIf (next.head.appliedRetentionLSN ≠ result.requestedLSN)
      (invalidPublishResult "applied retention lsn mismatch")
  else
    failIf (next ≠ current) (invalidPublishResult "unapplied retention changed snapshot")

/-! ## Errors given their form -/

def wrapSegmentWrite (err : Err) : Err :=
  if err.is (.writer .segmentWriteFailed) then err
  else if err.is (.segwriter .txnCommitIndeterminate) then
    .under (.writer .segmentWriteFailed) (.under (.writer .segmentCommitIndeterminate) err)
  else .under (.writer .segmentWriteFailed) err

def wrapSegmentStart (err : Err) : Err :=
  if err.is (.writer .segmentStartFailed) then err else .under (.writer .segmentStartFailed) err

def normalizePublishErr (err : Err) : Err :=
  if err.is (.writer .staleWriter) ∨ err.is (.writer .publishFailed) ∨ err.is (.writer .publishIndeterminate) ∨
      err.is (.writer .invalidPublishResult) then err
  else .under (.writer .publishFailed) err

def normalizeRetentionErr (err : Err) : Err :=
  if err.is (.writer .staleWriter) ∨ err.is (.writer .retentionUnsupported) ∨ err.is (.writer .retentionFailed) then err
  else .under (.writer .retentionFailed) err

/-- `errors.Join` of two errors that may be nil. -/
def joinErrs : Option Err → Option Err → Option Err
  | a, none => a
  | a, some b => some (.join a b)

/-! ## Records and segments -/

/-- The caller's record. -/
structure Record where
  timestampMS : Int64
  headers : List Segformat.Header
  value : Bytes

def Record.at (r : Record) (lsn : UInt64) : Segwriter.Record := ⟨lsn, r.timestampMS, r.headers, r.value⟩

structure ActiveSegment where
  writer : Segwriter.Writer
  baseLSN : UInt64
  records : UInt32
  rawBytes : UInt64
  firstRecordAt : Time

structure DetachedSegment where
  seq : Nat
  baseLSN : UInt64
  records : UInt32
  rawBytes : UInt64
  estBytes : UInt64
  writer : Segwriter.Writer

/-- `records` are those of the segment object. -/
structure ReadySegment where
  seq : Nat
  expectedNextLSN : UInt64
  estBytes : UInt64
  sizeBytes : UInt64
  segment : SegmentRef
  records : List Segwriter.Record

def segmentRefFromResult (result : Segwriter.Result) (streamID : String) (identity : WriterIdentity) : SegmentRef where
  uri := result.object.uri
  streamID := streamID
  partition := result.metadata.partition
  writerEpoch := identity.epoch
  segmentUUID := result.metadata.segmentUUID
  writerTag := identity.tag
  baseLSN := result.metadata.baseLSN
  lastLSN := result.metadata.lastLSN
  minTimestampMS := result.metadata.minTimestampMS
  maxTimestampMS := result.metadata.maxTimestampMS
  recordCount := result.metadata.recordCount
  blockCount := result.metadata.blockCount
  sizeBytes := result.object.sizeBytes
  blockIndexOffset := result.metadata.blockIndexOffset
  blockIndexLength := result.metadata.blockIndexLength
  codec := result.metadata.codec
  hashAlgo := result.metadata.hashAlgo
  segmentHash := result.metadata.segmentHash
  trailerHash := result.metadata.trailerHash

structure SegmentInfo where
  streamID : String
  partition : UInt32
  baseLSN : UInt64
  writerEpoch : UInt64
  writerTag : Arr 16
  segmentUUID : Arr 16
  createdUnixMS : Int64

/-! ## What the checks let through -/

variable {current next : Snapshot} {segment : SegmentRef}

theorem validatePublishedSnapshot_ok (h : validatePublishedSnapshot current next segment = .ok ()) :
    segment.baseLSN = current.head.nextLSN ∧ next.head.nextLSN = segment.nextLSN := by
  simp only [validatePublishedSnapshot, checks_ok, not_not] at h
  obtain ⟨_, hbase, _, _, _, _, _, _, _, _, _, _, _, _, hnext⟩ := h
  exact ⟨hbase, hnext⟩

theorem validateRetentionSnapshot_ok {result : RetentionResult} (h : validateRetentionSnapshot current result = .ok ()) :
    result.snapshot.head.nextLSN = current.head.nextLSN := by
  unfold validateRetentionSnapshot at h
  simp only [checks_ok, not_not] at h
  exact h.2.2.2.2.1

end ObjLog.Writer
