import ObjLog.Catformat.Types
/-!
# Public metadata, `pmeta` and `catalog/types.go`
-/

namespace ObjLog.Pmeta

open Lib Catformat

def defaultSegmentPageLimit : Nat := 128
def maxSegmentPageLimit : Nat := 1024

/-- The durable metadata of one committed segment object. -/
structure SegmentRef where
  uri : String
  streamID : String
  partition : UInt32
  writerEpoch : UInt64
  segmentUUID : Arr 16
  writerTag : Arr 16
  baseLSN : UInt64
  lastLSN : UInt64
  minTimestampMS : Int64
  maxTimestampMS : Int64
  recordCount : UInt32
  blockCount : UInt32
  sizeBytes : UInt64
  blockIndexOffset : UInt64
  blockIndexLength : UInt32
  codec : Codec
  hashAlgo : HashAlgo
  segmentHash : UInt64
  trailerHash : UInt64
deriving DecidableEq

def SegmentRef.zero : SegmentRef :=
  ⟨"", "", 0, 0, .zero 16, .zero 16, 0, 0, 0, 0, 0, 0, 0, 0, 0, .none, .crc32c, 0, 0⟩

def SegmentRef.validate (s : SegmentRef) : Except Err Unit := do
  failIf (s.uri = "") (.plain "pmeta: empty uri")
  failIf (s.writerEpoch = 0) (.plain "pmeta: empty writer_epoch")
  failIf (s.segmentUUID = .zero 16) (.plain "pmeta: empty segment_uuid")
  failIf (s.baseLSN > s.lastLSN) (.plain s!"pmeta: base_lsn={s.baseLSN} last_lsn={s.lastLSN}")
  failIf (s.lastLSN > maxRecordLSN) (.plain s!"pmeta: lsn exhausted: last_lsn={s.lastLSN}")
  let wantRecords := s.lastLSN - s.baseLSN + 1
  failIf (s.recordCount = 0 ∨ s.recordCount.toUInt64 ≠ wantRecords)
    (.plain s!"pmeta: record_count={s.recordCount} want={wantRecords}")
  failIf (s.blockCount = 0) (.plain "pmeta: empty block_count")
  failIf (s.sizeBytes = 0) (.plain "pmeta: empty size_bytes")
  failIf (s.blockIndexLength = 0) (.plain "pmeta: empty block_index_length")
  failIf (s.minTimestampMS > s.maxTimestampMS)
    (.plain s!"pmeta: min_timestamp_ms={s.minTimestampMS} max_timestamp_ms={s.maxTimestampMS}")
  restate s.codec.validate (.within "pmeta")
  restate s.hashAlgo.validate (.within "pmeta")

/-- The public state of one partition. -/
structure PartitionHead where
  streamID : String
  partition : UInt32
  nextLSN : UInt64
  oldestLSN : UInt64
  appliedRetentionLSN : UInt64
  appliedRetentionVersion : UInt64
  writerEpoch : UInt64
  segmentCount : UInt64
  reachableSegmentCount : UInt64
  lastSegment : SegmentRef
  hasLastSegment : Bool
deriving DecidableEq

def PartitionHead.zero : PartitionHead := ⟨"", 0, 0, 0, 0, 0, 0, 0, 0, .zero, false⟩

structure SegmentPage where
  segments : List SegmentRef
  nextLSN : UInt64
  hasMore : Bool
deriving DecidableEq

/-- `catalog.RetentionRequest`. -/
structure RetentionRequest where
  version : UInt16
  policyVersion : UInt64
  beforeLSN : UInt64
  createdUnixMS : Int64
deriving DecidableEq

def RetentionRequest.zero : RetentionRequest := ⟨0, 0, 0, 0⟩

/-- `catalog.RetentionApplyResult`. -/
structure RetentionApplyResult where
  head : PartitionHead
  request : RetentionRequest
  applied : Bool
deriving DecidableEq

def RetentionApplyResult.zero : RetentionApplyResult := ⟨.zero, .zero, false⟩

end ObjLog.Pmeta
