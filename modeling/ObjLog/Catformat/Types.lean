import ObjLog.Errors
/-!
# Catalog objects, `catformat/types.go` and `catformat/constants.go`

A head points at sealed pages through index entries; a leaf page lists
segments, an index page lists pages one level down.
-/

namespace ObjLog.Catformat

open Lib

/-! ## Constants -/

def version : UInt16 := 1

def headHeaderSize : Nat := 192
def pageHeaderSize : Nat := 128
def sectionHeaderSize : Nat := 16
def trailerSize : Nat := 32
def leafEntrySize : Nat := 128
def indexEntrySize : Nat := 80

def maxLeafEntries : Nat := 1024
def maxIndexEntries : Nat := 1024
def maxIndexLevel : Nat := 63
/-- One above the highest immutable index page: the terminal open section can
reference level-63 pages but cannot seal. -/
def maxOpenIndexLevel : Nat := maxIndexLevel + 1

def segmentLayoutV1 : UInt16 := 1
def flagHasLastSegment : UInt32 := 1

def maxUint32 : UInt64 := 4294967295
def maxUint64 : UInt64 := 18446744073709551615
def maxRecordLSN : UInt64 := 18446744073709551614
def reservedLSN : UInt64 := 18446744073709551615

/-! ## `segformat.Codec` and `segformat.HashAlgo` -/

structure Codec where
  val : UInt16
deriving DecidableEq, Repr

structure HashAlgo where
  val : UInt16
deriving DecidableEq, Repr

def Codec.none : Codec := ⟨0⟩
def Codec.zstd : Codec := ⟨1⟩
def HashAlgo.crc32c : HashAlgo := ⟨0⟩
def HashAlgo.xxh64 : HashAlgo := ⟨1⟩

def Codec.validate (c : Codec) : Except Err Unit :=
  failIf (c ≠ .none ∧ c ≠ .zstd) (.of .unsupportedCodec s!"{c.val}")

def HashAlgo.validate (h : HashAlgo) : Except Err Unit :=
  failIf (h ≠ .crc32c ∧ h ≠ .xxh64) (.of .unsupportedHashAlgo s!"{h.val}")

/-- `segformat.HashBytes`. -/
def hashBytes [Hashes] (algo : HashAlgo) (data : Bytes) : Except Err UInt64 :=
  if algo = .crc32c then .ok (Hashes.crc32c data).toUInt64
  else if algo = .xxh64 then .ok (Hashes.xxh64 data)
  else .error (.of .unsupportedHashAlgo s!"{algo.val}")

/-! ## Records -/

/-- The fixed-width catalog representation of one segment. -/
structure LeafEntry where
  baseLSN : UInt64
  lastLSN : UInt64
  minTimestampMS : Int64
  maxTimestampMS : Int64
  recordCount : UInt32
  blockCount : UInt32
  sizeBytes : UInt64
  blockIndexOffset : UInt64
  blockIndexLength : UInt32
  codec : Codec
  hashAlgo : HashAlgo
  segmentHash : UInt64
  trailerHash : UInt64
  writerEpoch : UInt64
  segmentUUID : Arr 16
  writerTag : Arr 16
deriving DecidableEq

/-- Go's zero `LeafEntry{}`. -/
def LeafEntry.zero : LeafEntry :=
  ⟨0, 0, 0, 0, 0, 0, 0, 0, 0, .none, .crc32c, 0, 0, 0, .zero 16, .zero 16⟩

/-- One sealed child page; `segmentCount` counts the leaf entries of the whole
subtree. -/
structure IndexEntry where
  level : UInt8
  entryCount : UInt32
  seqLo : UInt64
  seqHi : UInt64
  minTimestampMS : Int64
  maxTimestampMS : Int64
  generation : UInt64
  pageID : Arr 16
  segmentCount : UInt64
deriving DecidableEq

structure PageHeader where
  flags : UInt32
  partition : UInt32
  level : UInt8
  hashAlgo : HashAlgo
  entryCount : UInt32
  entrySize : UInt32
  seqLo : UInt64
  seqHi : UInt64
  minTimestampMS : Int64
  maxTimestampMS : Int64
  generation : UInt64
  writerEpoch : UInt64
  streamKey : Arr 32
  segmentCount : UInt64
deriving DecidableEq

structure LeafPage where
  header : PageHeader
  entries : List LeafEntry
deriving DecidableEq

structure IndexPage where
  header : PageHeader
  entries : List IndexEntry
deriving DecidableEq

structure HeadHeader where
  flags : UInt32
  partition : UInt32
  hashAlgo : HashAlgo
  segmentLayoutVersion : UInt16
  leafLimit : UInt32
  indexLimit : UInt32
  activeCount : UInt32
  levelCount : UInt32
  nextLSN : UInt64
  oldestLSN : UInt64
  appliedRetentionLSN : UInt64
  appliedRetentionVersion : UInt64
  writerEpoch : UInt64
  generation : UInt64
  segmentCount : UInt64
  reachableSegmentCount : UInt64
  writerID : Arr 16
  streamKey : Arr 32
  dataRootKey : Arr 32
deriving DecidableEq

structure OpenIndexSection where
  level : UInt8
  entries : List IndexEntry
deriving DecidableEq

structure Head where
  header : HeadHeader
  lastSegment : LeafEntry
  active : List LeafEntry
  sections : List OpenIndexSection
deriving DecidableEq

def Head.hasLastSegment (h : Head) : Bool := h.header.flags &&& flagHasLastSegment ≠ 0

end ObjLog.Catformat
