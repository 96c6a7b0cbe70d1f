import ObjLog.Keylayout
import ObjLog.Pmeta
import ObjLog.Catformat.Codec
/-!
# Engine configuration and derived keys, `catengine/config.go`
-/

namespace ObjLog.Catengine

open Lib Catformat Pmeta

structure Config where
  catalogPrefix : String
  dataRoot : String
  streamID : String
  partition : UInt32
  leafLimit : UInt32
  indexLimit : UInt32
  hashAlgo : HashAlgo
  streamKey : Arr 32
  dataRootKey : Arr 32
deriving DecidableEq

def defaultCatalogPrefix : String := "catalog"
def defaultDataRoot : String := "objlog"

def newConfig [Hashes] (catalogPrefix dataRoot streamID : String) (partition leafLimit indexLimit : UInt32)
    (hashAlgo : HashAlgo) : Except Err Config := do
  let catalogPrefix := trimSlashes catalogPrefix
  let catalogPrefix := if catalogPrefix = "" then defaultCatalogPrefix else catalogPrefix
  let streamID ← if streamID ≠ "" then Keylayout.canonicalStreamID streamID else pure streamID
  failIf (leafLimit = 0 ∨ leafLimit.toNat > maxLeafEntries)
    (.plain s!"catengine: leaf limit={leafLimit} outside [1,{maxLeafEntries}]")
  failIf (indexLimit < 2 ∨ indexLimit.toNat > maxIndexEntries)
    (.plain s!"catengine: index limit={indexLimit} outside [2,{maxIndexEntries}]")
  restate hashAlgo.validate (.within "catengine")
  let dataRoot := trimSlashes dataRoot
  let dataRoot := if dataRoot = "" then defaultDataRoot else dataRoot
  pure ⟨catalogPrefix, dataRoot, streamID, partition, leafLimit, indexLimit, hashAlgo,
    Hashes.sha256 (utf8 streamID), Hashes.sha256 (utf8 dataRoot)⟩

def validateConfigHead (config : Config) (head : Head) : Except Err Unit := do
  failIf (head.header.partition ≠ config.partition ∨ head.header.streamKey ≠ config.streamKey ∨
      head.header.dataRootKey ≠ config.dataRootKey)
    (.plain "catengine: head identity does not match configuration")
  failIf (head.header.leafLimit ≠ config.leafLimit ∨ head.header.indexLimit ≠ config.indexLimit ∨
      head.header.hashAlgo ≠ config.hashAlgo)
    (.plain "catengine: head format options do not match configuration")
  failIf (head.header.segmentLayoutVersion ≠ segmentLayoutV1)
    (.plain s!"catengine: unsupported segment layout={head.header.segmentLayoutVersion}")

namespace Config

variable [Hashes] (c : Config)

def partitionPrefix : String :=
  String.intercalate "/" ([c.catalogPrefix, Keylayout.bucket c.streamID c.partition] ++
    (if c.streamID ≠ "" then ["streams", Keylayout.streamKey c.streamID] else []) ++
    ["p" ++ padDec 8 c.partition.toNat])

def headPath : String := c.partitionPrefix ++ "/head.plc"

/-- The part of a page path after its directory and kind. -/
def pageName (ref : IndexEntry) : String :=
  padDec 20 ref.seqHi.toNat ++ "-" ++ padDec 20 ref.seqLo.toNat ++ "-" ++ padDec 20 ref.generation.toNat ++ "-" ++
    hexString ref.pageID.bytes ++ ".plc"

def leafPagePath (ref : IndexEntry) : String := c.partitionPrefix ++ "/pages/l00/leaf-" ++ pageName ref

def indexPagePath (ref : IndexEntry) : String :=
  c.partitionPrefix ++ "/pages/l" ++ padDec 2 ref.level.toNat ++ "/index-l" ++ padDec 2 ref.level.toNat ++ "-" ++
    pageName ref

def pagePath (ref : IndexEntry) : String := if ref.level = 0 then c.leafPagePath ref else c.indexPagePath ref

def segmentURI (entry : LeafEntry) : String :=
  Keylayout.segmentObjectKey c.dataRoot c.streamID c.partition entry.baseLSN entry.writerEpoch entry.segmentUUID

def decodeHead (body : Bytes) : Except Err Head := do
  let head ← restate (parseHead body) (.ofWithin .corruptCatalog "decode head")
  restate (validateConfigHead c head) (.ofWithin .corruptCatalog "decode head")
  pure head

def segmentRef (entry : LeafEntry) : SegmentRef where
  uri := c.segmentURI entry
  streamID := c.streamID
  partition := c.partition
  writerEpoch := entry.writerEpoch
  segmentUUID := entry.segmentUUID
  writerTag := entry.writerTag
  baseLSN := entry.baseLSN
  lastLSN := entry.lastLSN
  minTimestampMS := entry.minTimestampMS
  maxTimestampMS := entry.maxTimestampMS
  recordCount := entry.recordCount
  blockCount := entry.blockCount
  sizeBytes := entry.sizeBytes
  blockIndexOffset := entry.blockIndexOffset
  blockIndexLength := entry.blockIndexLength
  codec := entry.codec
  hashAlgo := entry.hashAlgo
  segmentHash := entry.segmentHash
  trailerHash := entry.trailerHash

/-- The public state `PartitionHead` builds once the head matches. -/
def publicState (head : Head) : PartitionHead where
  streamID := c.streamID
  partition := c.partition
  nextLSN := head.header.nextLSN
  oldestLSN := head.header.oldestLSN
  appliedRetentionLSN := head.header.appliedRetentionLSN
  appliedRetentionVersion := head.header.appliedRetentionVersion
  writerEpoch := head.header.writerEpoch
  segmentCount := head.header.segmentCount
  reachableSegmentCount := head.header.reachableSegmentCount
  lastSegment := if head.hasLastSegment then c.segmentRef head.lastSegment else .zero
  hasLastSegment := head.hasLastSegment

def partitionHead (head : Head) : Except Err PartitionHead := do
  validateConfigHead c head
  pure (c.publicState head)

/-- The entry `leafEntry` builds from a segment. -/
def entryOf (segment : SegmentRef) : LeafEntry where
  baseLSN := segment.baseLSN
  lastLSN := segment.lastLSN
  minTimestampMS := segment.minTimestampMS
  maxTimestampMS := segment.maxTimestampMS
  recordCount := segment.recordCount
  blockCount := segment.blockCount
  sizeBytes := segment.sizeBytes
  blockIndexOffset := segment.blockIndexOffset
  blockIndexLength := segment.blockIndexLength
  codec := segment.codec
  hashAlgo := segment.hashAlgo
  segmentHash := segment.segmentHash
  trailerHash := segment.trailerHash
  writerEpoch := segment.writerEpoch
  segmentUUID := segment.segmentUUID
  writerTag := segment.writerTag

def leafEntry (segment : SegmentRef) : Except Err LeafEntry := do
  restate segment.validate (.within "catengine")
  failIf (segment.streamID ≠ c.streamID ∨ segment.partition ≠ c.partition)
    (.plain s!"catengine: segment identity stream={segment.streamID.quote} partition={segment.partition}, want stream={c.streamID.quote} partition={c.partition}")
  failIf (segment.writerTag = .zero 16) (.plain "catengine: segment has empty writer tag")
  let entry := entryOf segment
  failIf (segment.uri ≠ c.segmentURI entry)
    (.plain s!"catengine: segment URI={segment.uri.quote}, want derived URI={(c.segmentURI entry).quote}")
  pure entry

end Config

end ObjLog.Catengine
