import ObjLog.Catformat.Codec
import ObjLog.Segformat
/-!
# The parts of a segment object, `segformat`

A segment object is a file preamble, blocks that each follow a preamble of their
own, an index with one entry per block, and a trailer. Every part is the
concatenation of its fields in offset order, reserved bytes included; parsing
reads the same offsets back through `slice`.
-/

namespace ObjLog.Segformat

open Lib
open Catformat (Codec HashAlgo hashBytes maxRecordLSN quoted hexNat)

def version : UInt16 := 2
def maxStoredBlockSize : Nat := 20971520
def maxUint64 : Nat := 18446744073709551615

/-- A limit of the format as the `uint32` it is compared with. -/
abbrev u32 (n : Nat) : UInt32 := .ofNat n
abbrev u64 (n : Nat) : UInt64 := .ofNat n

def fileMagic : Bytes := [80, 76, 83, 71]
def blockMagic : Bytes := [80, 76, 66, 75]
def indexMagic : Bytes := [80, 76, 73, 88]
def trailerMagic : Bytes := [80, 76, 70, 84]

structure RecordFormat where
  val : UInt16
deriving DecidableEq, Repr

def RecordFormat.v1 : RecordFormat := ⟨1⟩
def RecordFormat.validate (f : RecordFormat) : Except Err Unit :=
  failIf (f ≠ .v1) (.of (.segformat .unsupportedRecord) s!"{f.val}")

/-! ## The parts -/

structure FilePreamble where
  flags : UInt32
  partition : UInt32
  codec : Codec
  hashAlgo : HashAlgo
  recordFormat : RecordFormat
  baseLSN : UInt64
  segmentUUID : Arr 16
  writerTag : Arr 16
deriving DecidableEq

structure BlockPreamble where
  flags : UInt16
  storedSize : UInt32
  rawSize : UInt32
  recordCount : UInt32
  baseLSN : UInt64
  minTimestampMS : Int64
  maxTimestampMS : Int64
  blockHash : UInt64
deriving DecidableEq

structure IndexPreamble where
  flags : UInt16
  entrySize : UInt32
  entryCount : UInt32
  indexHash : UInt64
deriving DecidableEq

structure BlockIndexEntry where
  blockOffset : UInt64
  storedSize : UInt32
  rawSize : UInt32
  recordCount : UInt32
  baseLSN : UInt64
  minTimestampMS : Int64
  maxTimestampMS : Int64
  blockHash : UInt64
deriving DecidableEq

structure Trailer where
  flags : UInt32
  partition : UInt32
  codec : Codec
  hashAlgo : HashAlgo
  recordFormat : RecordFormat
  baseLSN : UInt64
  lastLSN : UInt64
  minTimestampMS : Int64
  maxTimestampMS : Int64
  recordCount : UInt32
  blockCount : UInt32
  blockIndexOffset : UInt64
  blockIndexLength : UInt32
  totalSize : UInt64
  createdUnixMS : Int64
  segmentUUID : Arr 16
  writerTag : Arr 16
  segmentHash : UInt64
  trailerHash : UInt64
deriving DecidableEq

/-! ## Validation, `segformat/validate.go` -/

def invalid (text : String) : Err := .of .invalidSegment text

def mismatch (text : String) : Err := .of (.segformat .blockIndexMismatch) text

def lastLSN (base : UInt64) (count : UInt32) : Except Err UInt64 := do
  failIf (count = 0) (invalid "record_count must be positive")
  let delta := (count - 1).toUInt64
  failIf (base > maxRecordLSN - delta) (invalid s!"lsn range exceeds max record lsn={maxRecordLSN}")
  return base + delta

def nextLSN (base : UInt64) (count : UInt32) : Except Err UInt64 := do
  let last ← lastLSN base count
  return last + 1

def nextBlockOffset (offset : UInt64) (storedSize : UInt32) : Except Err UInt64 := do
  failIf (offset > u64 maxUint64 - u64 blockPreambleSize) (invalid "block offset overflows uint64")
  let offset := offset + u64 blockPreambleSize
  failIf (offset > u64 maxUint64 - storedSize.toUInt64) (invalid "block offset overflows uint64")
  return offset + storedSize.toUInt64

def FilePreamble.validate (p : FilePreamble) : Except Err Unit := do
  failIf (p.flags ≠ 0) (invalid "file preamble flags must be zero")
  failIf (p.baseLSN > maxRecordLSN) (invalid s!"base_lsn={p.baseLSN} is reserved")
  p.codec.validate
  p.hashAlgo.validate
  p.recordFormat.validate

/-- The checks that block preambles and index entries share; `what` names the fields of the one or the other. -/
def validateBlock (what max : String) (storedSize rawSize recordCount : UInt32) (baseLSN : UInt64)
    (minTimestampMS maxTimestampMS : Int64) : Except Err Unit := do
  failIf (storedSize = 0) (invalid (what ++ "stored_size must be positive"))
  failIf (storedSize > u32 maxStoredBlockSize)
    (.of .blockTooLarge (what ++ s!"stored_size={storedSize} max={maxStoredBlockSize}"))
  failIf (rawSize = 0) (invalid (what ++ "raw_size must be positive"))
  failIf (rawSize > u32 maxRawBlockSize) (.of .blockTooLarge (what ++ s!"raw_size={rawSize} max={maxRawBlockSize}"))
  failIf (recordCount = 0) (invalid (what ++ "record_count must be positive"))
  failIf (recordCount > rawSize / u32 recordHeaderSize)
    (invalid (what ++ s!"record_count={recordCount} cannot fit in raw_size={rawSize}"))
  let _ ← lastLSN baseLSN recordCount
  failIf (maxTimestampMS < minTimestampMS) (invalid (max ++ " max timestamp < min timestamp"))

def BlockPreamble.validate (p : BlockPreamble) : Except Err Unit := do
  failIf (p.flags ≠ 0) (invalid "block preamble flags must be zero")
  validateBlock "" "block" p.storedSize p.rawSize p.recordCount p.baseLSN p.minTimestampMS p.maxTimestampMS

def BlockIndexEntry.validate (e : BlockIndexEntry) : Except Err Unit :=
  validateBlock "index " "index" e.storedSize e.rawSize e.recordCount e.baseLSN e.minTimestampMS e.maxTimestampMS

def IndexPreamble.validate (p : IndexPreamble) : Except Err Unit := do
  failIf (p.flags ≠ 0) (invalid "index preamble flags must be zero")
  failIf (p.entrySize ≠ u32 blockIndexEntrySize) (invalid s!"entry_size={p.entrySize} want={blockIndexEntrySize}")
  failIf (p.entryCount = 0) (invalid "entry_count must be positive")
  failIf (p.entryCount > u32 maxBlockCount) (invalid s!"entry_count={p.entryCount} max={maxBlockCount}")

/-- `expectedIndexLength`. -/
def indexLength (blockCount : UInt32) : UInt64 := u64 indexPreambleSize + blockCount.toUInt64 * u64 blockIndexEntrySize

def Trailer.validate (t : Trailer) (objectSize : UInt64) : Except Err Unit := do
  failIf (t.flags ≠ 0) (invalid "trailer flags must be zero")
  t.codec.validate
  t.hashAlgo.validate
  t.recordFormat.validate
  failIf (t.lastLSN < t.baseLSN) (invalid "last_lsn < base_lsn")
  failIf (t.lastLSN > maxRecordLSN) (invalid s!"last_lsn={t.lastLSN} is reserved")
  failIf (t.recordCount = 0) (invalid "record_count must be positive")
  failIf (t.blockCount = 0) (invalid "block_count must be positive")
  failIf (t.blockCount > u32 maxBlockCount) (invalid s!"block_count={t.blockCount} max={maxBlockCount}")
  failIf (t.maxTimestampMS < t.minTimestampMS) (invalid "trailer max timestamp < min timestamp")
  let expectedRecords := t.lastLSN - t.baseLSN + 1
  failIf (expectedRecords ≠ t.recordCount.toUInt64) (invalid s!"record_count={t.recordCount} lsn_span={expectedRecords}")
  failIf (indexLength t.blockCount > 4294967295) (invalid "block index length overflows u32")
  failIf (t.blockIndexLength ≠ (indexLength t.blockCount).toUInt32)
    (invalid s!"block_index_length={t.blockIndexLength} want={indexLength t.blockCount}")
  failIf (t.blockIndexOffset < u64 (filePreambleSize + blockPreambleSize))
    (invalid s!"block_index_offset={t.blockIndexOffset} too small")
  failIf (t.blockIndexOffset > u64 maxUint64 - t.blockIndexLength.toUInt64) (invalid "block index range overflows uint64")
  let indexEnd := t.blockIndexOffset + t.blockIndexLength.toUInt64
  failIf (indexEnd > u64 maxUint64 - u64 trailerSize) (invalid "total size overflows uint64")
  let expectedTotal := indexEnd + u64 trailerSize
  failIf (t.totalSize ≠ expectedTotal) (invalid s!"total_size={t.totalSize} want={expectedTotal}")
  failIf (objectSize ≠ 0 ∧ t.totalSize ≠ objectSize)
    (invalid s!"object size={objectSize} trailer total_size={t.totalSize}")

/-- One entry of `ValidateIndex` after another. -/
def validateIndexStep (i : Nat) (prev e : BlockIndexEntry) : Except Err Unit := do
  let wantLSN ← nextLSN prev.baseLSN prev.recordCount
  failIf (e.baseLSN ≠ wantLSN) (mismatch s!"entry {i} base_lsn={e.baseLSN} want={wantLSN}")
  let wantOffset ← nextBlockOffset prev.blockOffset prev.storedSize
  failIf (e.blockOffset ≠ wantOffset) (mismatch s!"entry {i} block_offset={e.blockOffset} want={wantOffset}")
  failIf (e.minTimestampMS < prev.maxTimestampMS) (mismatch s!"entry {i} timestamp regression")

/-- The loop of `ValidateIndex` after entry `prev`: the last entry and the sum of the record counts. -/
def validateIndexFrom (i : Nat) (prev : BlockIndexEntry) (sum : UInt64) :
    List BlockIndexEntry → Except Err (BlockIndexEntry × UInt64)
  | [] => .ok (prev, sum)
  | e :: entries => do
    e.validate
    validateIndexStep i prev e
    validateIndexFrom (i + 1) e (sum + e.recordCount.toUInt64) entries

def validateIndex (entries : List BlockIndexEntry) (t : Trailer) : Except Err Unit :=
  match entries with
  | [] => .error (mismatch "empty index")
  | first :: rest => do
    failIf (u32 entries.length ≠ t.blockCount) (mismatch s!"entries={entries.length} block_count={t.blockCount}")
    failIf (first.blockOffset ≠ u64 filePreambleSize)
      (mismatch s!"first block_offset={first.blockOffset} want={filePreambleSize}")
    first.validate
    failIf (first.baseLSN ≠ t.baseLSN) (mismatch s!"first base_lsn={first.baseLSN} trailer base_lsn={t.baseLSN}")
    failIf (first.minTimestampMS ≠ t.minTimestampMS)
      (mismatch s!"first min timestamp={first.minTimestampMS} trailer min timestamp={t.minTimestampMS}")
    let (last, sum) ← validateIndexFrom 1 first first.recordCount.toUInt64 rest
    let lastLSN ← lastLSN last.baseLSN last.recordCount
    failIf (lastLSN ≠ t.lastLSN) (mismatch s!"last_lsn={lastLSN} trailer last_lsn={t.lastLSN}")
    let indexOffset ← nextBlockOffset last.blockOffset last.storedSize
    failIf (indexOffset ≠ t.blockIndexOffset)
      (mismatch s!"index offset={indexOffset} trailer index offset={t.blockIndexOffset}")
    failIf (last.maxTimestampMS ≠ t.maxTimestampMS)
      (mismatch s!"last max timestamp={last.maxTimestampMS} trailer max timestamp={t.maxTimestampMS}")
    failIf (sum ≠ t.recordCount.toUInt64) (mismatch s!"record sum={sum} trailer record_count={t.recordCount}")

/-! ## The bytes, `segformat/marshal.go` and `segformat/index.go` -/

def FilePreamble.bytes (p : FilePreamble) : Bytes :=
  fileMagic ++ (putUint16 version ++ (putUint16 (.ofNat filePreambleSize) ++ (putUint32 p.flags ++ (putUint32 p.partition ++
  (putUint16 p.codec.val ++ (putUint16 p.hashAlgo.val ++ (putUint16 p.recordFormat.val ++ (zeros 2 ++
  (putUint64 p.baseLSN ++ (p.segmentUUID.bytes ++ p.writerTag.bytes))))))))))

def FilePreamble.marshal (p : FilePreamble) : Except Err Bytes := do
  p.validate
  return p.bytes

def parseFilePreamble (buf : Bytes) : Except Err FilePreamble := do
  failIf (buf.length ≠ filePreambleSize) (invalid s!"file preamble size={buf.length} want={filePreambleSize}")
  failIf (slice buf 0 4 ≠ fileMagic) (invalid s!"bad file magic={quoted (slice buf 0 4)}")
  failIf (uint16 (slice buf 4 6) ≠ version) (.of (.segformat .unsupportedVersion) s!"version={uint16 (slice buf 4 6)}")
  failIf (uint16 (slice buf 6 8) ≠ .ofNat filePreambleSize)
    (invalid s!"file preamble length={uint16 (slice buf 6 8)} want={filePreambleSize}")
  failIf (!allZero (slice buf 22 24)) (invalid "file preamble reserved0 must be zero")
  let p : FilePreamble := {
    flags := uint32 (slice buf 8 12)
    partition := uint32 (slice buf 12 16)
    codec := ⟨uint16 (slice buf 16 18)⟩
    hashAlgo := ⟨uint16 (slice buf 18 20)⟩
    recordFormat := ⟨uint16 (slice buf 20 22)⟩
    baseLSN := uint64 (slice buf 24 32)
    segmentUUID := .ofBytes 16 (slice buf 32 48)
    writerTag := .ofBytes 16 (slice buf 48 64) }
  p.validate
  return p

def BlockPreamble.bytes (p : BlockPreamble) : Bytes :=
  blockMagic ++ (putUint16 (.ofNat blockPreambleSize) ++ (putUint16 p.flags ++ (putUint32 p.storedSize ++
  (putUint32 p.rawSize ++ (putUint32 p.recordCount ++ (zeros 4 ++ (putUint64 p.baseLSN ++ (putInt64 p.minTimestampMS ++
  (putInt64 p.maxTimestampMS ++ (putUint64 p.blockHash ++ zeros 8))))))))))

def BlockPreamble.marshal (p : BlockPreamble) : Except Err Bytes := do
  p.validate
  return p.bytes

def parseBlockPreamble (buf : Bytes) : Except Err BlockPreamble := do
  failIf (buf.length ≠ blockPreambleSize) (invalid s!"block preamble size={buf.length} want={blockPreambleSize}")
  failIf (slice buf 0 4 ≠ blockMagic) (invalid s!"bad block magic={quoted (slice buf 0 4)}")
  failIf (uint16 (slice buf 4 6) ≠ .ofNat blockPreambleSize)
    (invalid s!"block preamble length={uint16 (slice buf 4 6)} want={blockPreambleSize}")
  failIf (!allZero (slice buf 20 24) || !allZero (slice buf 56 64))
    (invalid "block preamble reserved fields must be zero")
  let p : BlockPreamble := {
    flags := uint16 (slice buf 6 8)
    storedSize := uint32 (slice buf 8 12)
    rawSize := uint32 (slice buf 12 16)
    recordCount := uint32 (slice buf 16 20)
    baseLSN := uint64 (slice buf 24 32)
    minTimestampMS := int64 (slice buf 32 40)
    maxTimestampMS := int64 (slice buf 40 48)
    blockHash := uint64 (slice buf 48 56) }
  p.validate
  return p

/-- `writeIndexPreamble`. -/
def IndexPreamble.bytes (p : IndexPreamble) : Bytes :=
  indexMagic ++ (putUint16 (.ofNat indexPreambleSize) ++ (putUint16 p.flags ++ (putUint32 p.entrySize ++
  (putUint32 p.entryCount ++ (putUint64 p.indexHash ++ zeros 40)))))

def IndexPreamble.marshal (p : IndexPreamble) : Except Err Bytes := do
  p.validate
  return p.bytes

def parseIndexPreamble (buf : Bytes) : Except Err IndexPreamble := do
  failIf (buf.length ≠ indexPreambleSize) (invalid s!"index preamble size={buf.length} want={indexPreambleSize}")
  failIf (slice buf 0 4 ≠ indexMagic) (invalid s!"bad index magic={quoted (slice buf 0 4)}")
  failIf (uint16 (slice buf 4 6) ≠ .ofNat indexPreambleSize)
    (invalid s!"index preamble length={uint16 (slice buf 4 6)} want={indexPreambleSize}")
  failIf (!allZero (slice buf 24 64)) (invalid "index preamble reserved0 must be zero")
  let p : IndexPreamble := {
    flags := uint16 (slice buf 6 8)
    entrySize := uint32 (slice buf 8 12)
    entryCount := uint32 (slice buf 12 16)
    indexHash := uint64 (slice buf 16 24) }
  p.validate
  return p

/-- `writeBlockIndexEntry`. -/
def BlockIndexEntry.bytes (e : BlockIndexEntry) : Bytes :=
  putUint64 e.blockOffset ++ (putUint32 e.storedSize ++ (putUint32 e.rawSize ++ (putUint32 e.recordCount ++ (zeros 4 ++
  (putUint64 e.baseLSN ++ (putInt64 e.minTimestampMS ++ (putInt64 e.maxTimestampMS ++
  (putUint64 e.blockHash ++ zeros 8))))))))

def BlockIndexEntry.marshal (e : BlockIndexEntry) : Except Err Bytes := do
  e.validate
  return e.bytes

def parseBlockIndexEntry (buf : Bytes) : Except Err BlockIndexEntry := do
  failIf (buf.length ≠ blockIndexEntrySize) (invalid s!"block index entry size={buf.length} want={blockIndexEntrySize}")
  failIf (!allZero (slice buf 20 24) || !allZero (slice buf 56 64)) (invalid "block index reserved fields must be zero")
  let e : BlockIndexEntry := {
    blockOffset := uint64 (slice buf 0 8)
    storedSize := uint32 (slice buf 8 12)
    rawSize := uint32 (slice buf 12 16)
    recordCount := uint32 (slice buf 16 20)
    baseLSN := uint64 (slice buf 24 32)
    minTimestampMS := int64 (slice buf 32 40)
    maxTimestampMS := int64 (slice buf 40 48)
    blockHash := uint64 (slice buf 48 56) }
  e.validate
  return e

/-- The trailer up to its own hash. -/
def Trailer.front (t : Trailer) : Bytes :=
  trailerMagic ++ (putUint16 (.ofNat trailerSize) ++ (putUint16 version ++ (putUint32 t.flags ++ (putUint32 t.partition ++
  (putUint16 t.codec.val ++ (putUint16 t.hashAlgo.val ++ (putUint16 t.recordFormat.val ++ (zeros 2 ++
  (putUint64 t.baseLSN ++ (putUint64 t.lastLSN ++ (putInt64 t.minTimestampMS ++ (putInt64 t.maxTimestampMS ++
  (putUint32 t.recordCount ++ (putUint32 t.blockCount ++ (putUint64 t.blockIndexOffset ++ (putUint32 t.blockIndexLength ++
  (zeros 4 ++ (putUint64 t.totalSize ++ (putInt64 t.createdUnixMS ++ (t.segmentUUID.bytes ++ (t.writerTag.bytes ++
  putUint64 t.segmentHash)))))))))))))))))))))

/-- The trailer with `hash` in the place of its own hash. -/
def Trailer.bytes (t : Trailer) (hash : UInt64) : Bytes := t.front ++ (putUint64 hash ++ zeros 48)

section Hashed
variable [Hashes]

def Trailer.marshal (t : Trailer) : Except Err Bytes := do
  t.validate t.totalSize
  let trailerHash ← hashBytes t.hashAlgo (t.bytes 0)
  return t.bytes trailerHash

def parseTrailer (buf : Bytes) (objectSize : UInt64) : Except Err Trailer := do
  failIf (buf.length ≠ trailerSize) (invalid s!"trailer size={buf.length} want={trailerSize}")
  failIf (slice buf 0 4 ≠ trailerMagic) (invalid s!"bad trailer magic={quoted (slice buf 0 4)}")
  failIf (uint16 (slice buf 4 6) ≠ .ofNat trailerSize)
    (invalid s!"trailer length={uint16 (slice buf 4 6)} want={trailerSize}")
  failIf (uint16 (slice buf 6 8) ≠ version) (.of (.segformat .unsupportedVersion) s!"version={uint16 (slice buf 6 8)}")
  failIf (!allZero (slice buf 22 24) || !allZero (slice buf 76 80) || !allZero (slice buf 144 192))
    (invalid "trailer reserved fields must be zero")
  let t : Trailer := {
    flags := uint32 (slice buf 8 12)
    partition := uint32 (slice buf 12 16)
    codec := ⟨uint16 (slice buf 16 18)⟩
    hashAlgo := ⟨uint16 (slice buf 18 20)⟩
    recordFormat := ⟨uint16 (slice buf 20 22)⟩
    baseLSN := uint64 (slice buf 24 32)
    lastLSN := uint64 (slice buf 32 40)
    minTimestampMS := int64 (slice buf 40 48)
    maxTimestampMS := int64 (slice buf 48 56)
    recordCount := uint32 (slice buf 56 60)
    blockCount := uint32 (slice buf 60 64)
    blockIndexOffset := uint64 (slice buf 64 72)
    blockIndexLength := uint32 (slice buf 72 76)
    totalSize := uint64 (slice buf 80 88)
    createdUnixMS := int64 (slice buf 88 96)
    segmentUUID := .ofBytes 16 (slice buf 96 112)
    writerTag := .ofBytes 16 (slice buf 112 128)
    segmentHash := uint64 (slice buf 128 136)
    trailerHash := uint64 (slice buf 136 144) }
  t.validate objectSize
  let got ← hashBytes t.hashAlgo (slice buf 0 136 ++ (zeros 8 ++ slice buf 144 192))
  failIf (got ≠ t.trailerHash)
    (.of (.segformat .integrityMismatch) s!"trailer hash got={hexNat got.toNat} want={hexNat t.trailerHash.toNat}")
  return t

/-- The entry check of the loop in `MarshalBlockIndex`. -/
def validateEntries : List BlockIndexEntry → Except Err Unit
  | [] => .ok ()
  | e :: entries => do
    e.validate
    validateEntries entries

def marshalBlockIndex (entries : List BlockIndexEntry) (t : Trailer) : Except Err (Bytes × IndexPreamble) := do
  failIf (entries = []) (mismatch "empty index")
  failIf (entries.length > maxBlockCount) (mismatch s!"entries={entries.length} max={maxBlockCount}")
  validateIndex entries t
  validateEntries entries
  let entriesBytes := entries.flatMap BlockIndexEntry.bytes
  let indexHash ← hashBytes t.hashAlgo entriesBytes
  let preamble : IndexPreamble := ⟨0, u32 blockIndexEntrySize, u32 entries.length, indexHash⟩
  return (preamble.bytes ++ entriesBytes, preamble)

/-- `count` entries laid out one after the other. -/
def parseEntries : Nat → Bytes → Except Err (List BlockIndexEntry)
  | 0, _ => .ok []
  | n + 1, buf => do
    let e ← parseBlockIndexEntry (buf.take blockIndexEntrySize)
    let rest ← parseEntries n (buf.drop blockIndexEntrySize)
    return e :: rest

def parseBlockIndex (buf : Bytes) (algo : HashAlgo) : Except Err (IndexPreamble × List BlockIndexEntry) := do
  failIf (buf.length < indexPreambleSize) (invalid "index too small")
  let preamble ← parseIndexPreamble (buf.take indexPreambleSize)
  let wantLen := indexPreambleSize + preamble.entryCount.toNat * blockIndexEntrySize
  failIf (buf.length ≠ wantLen) (invalid s!"index size={buf.length} want={wantLen}")
  let entriesBytes := buf.drop indexPreambleSize
  let gotHash ← hashBytes algo entriesBytes
  failIf (gotHash ≠ preamble.indexHash)
    (.of (.segformat .integrityMismatch) s!"index hash got={hexNat gotHash.toNat} want={hexNat preamble.indexHash.toNat}")
  let entries ← parseEntries preamble.entryCount.toNat entriesBytes
  return (preamble, entries)

end Hashed

/-! ## What was laid out is read back -/

@[simp] theorem length_filePreamble (p : FilePreamble) : p.bytes.length = 64 := by
  simp [FilePreamble.bytes, fileMagic]

@[simp] theorem length_blockPreamble (p : BlockPreamble) : p.bytes.length = 64 := by
  simp [BlockPreamble.bytes, blockMagic]

@[simp] theorem length_indexPreamble (p : IndexPreamble) : p.bytes.length = 64 := by
  simp [IndexPreamble.bytes, indexMagic]

@[simp] theorem length_blockIndexEntry (e : BlockIndexEntry) : e.bytes.length = 64 := by
  simp [BlockIndexEntry.bytes]

@[simp] theorem length_trailerFront (t : Trailer) : t.front.length = 136 := by
  simp [Trailer.front, trailerMagic]

@[simp] theorem length_trailer (t : Trailer) (hash : UInt64) : (t.bytes hash).length = 192 := by
  simp [Trailer.bytes]

theorem parse_filePreamble {p : FilePreamble} (h : p.validate = .ok ()) : parseFilePreamble p.bytes = .ok p := by
  have hm : fileMagic.length = 4 := rfl
  rw [parseFilePreamble, length_filePreamble]
  simp only [FilePreamble.bytes]
  simp (disch := simp [hm]) [slice_right, slice_left, slice_self, filePreambleSize, hm, h]

theorem parse_blockPreamble {p : BlockPreamble} (h : p.validate = .ok ()) : parseBlockPreamble p.bytes = .ok p := by
  have hm : blockMagic.length = 4 := rfl
  rw [parseBlockPreamble, length_blockPreamble]
  simp only [BlockPreamble.bytes]
  simp (disch := simp [hm]) [slice_right, slice_left, slice_self, blockPreambleSize, hm, h]

theorem parse_indexPreamble {p : IndexPreamble} (h : p.validate = .ok ()) : parseIndexPreamble p.bytes = .ok p := by
  have hm : indexMagic.length = 4 := rfl
  rw [parseIndexPreamble, length_indexPreamble]
  simp only [IndexPreamble.bytes]
  simp (disch := simp [hm]) [slice_right, slice_left, slice_self, indexPreambleSize, hm, h]

theorem parse_blockIndexEntry {e : BlockIndexEntry} (h : e.validate = .ok ()) : parseBlockIndexEntry e.bytes = .ok e := by
  rw [parseBlockIndexEntry, length_blockIndexEntry]
  simp only [BlockIndexEntry.bytes]
  simp (disch := simp) [slice_right, slice_left, slice_self, blockIndexEntrySize, h]

variable {entries : List BlockIndexEntry}

theorem parseEntries_flatMap (h : ∀ e ∈ entries, e.validate = .ok ()) :
    parseEntries entries.length (entries.flatMap BlockIndexEntry.bytes) = .ok entries := by
  induction entries with
  | nil => rfl
  | cons e entries ih =>
    have hlen : e.bytes.length = blockIndexEntrySize := length_blockIndexEntry e
    rw [List.length_cons, List.flatMap_cons, parseEntries, List.take_left' hlen, List.drop_left' hlen,
      parse_blockIndexEntry (h e (List.mem_cons_self ..)), ih fun e he => h e (List.mem_cons_of_mem _ he)]
    rfl

theorem validateEntries_ok : validateEntries entries = .ok () ↔ ∀ e ∈ entries, e.validate = .ok () := by
  induction entries with
  | nil => simp [validateEntries]
  | cons e entries ih => simp [validateEntries, ih]

theorem length_entries (entries : List BlockIndexEntry) :
    (entries.flatMap BlockIndexEntry.bytes).length = entries.length * 64 := by
  simp [List.length_flatMap]

section Hashed
variable [Hashes]

/-- A trailer is read back with the hash its bytes have. -/
theorem parse_trailer {t : Trailer} {hash size : UInt64} (h : t.validate size = .ok ())
    (hhash : hashBytes t.hashAlgo (t.bytes 0) = .ok hash) :
    parseTrailer (t.bytes hash) size = .ok { t with trailerHash := hash } := by
  have hm : trailerMagic.length = 4 := rfl
  -- the bytes that are hashed: everything but the hash itself
  have hcheck : slice (t.bytes hash) 0 136 ++ (zeros 8 ++ slice (t.bytes hash) 144 192) = t.bytes 0 := by
    unfold Trailer.bytes
    simp (disch := simp) [slice_right, slice_left, slice_self]
    rfl
  have hvalid : ({ t with trailerHash := hash } : Trailer).validate size = .ok () := h
  rw [parseTrailer, length_trailer, hcheck]
  generalize t.bytes 0 = checked at hhash
  simp only [Trailer.bytes, Trailer.front, List.append_assoc]
  simp (disch := simp [hm]) [slice_right, slice_left, slice_self, trailerSize, hm, hvalid, hhash]

theorem parse_blockIndex {preamble : IndexPreamble} {algo : HashAlgo}
    (hvalid : preamble.validate = .ok ()) (hcount : preamble.entryCount.toNat = entries.length)
    (hhash : hashBytes algo (entries.flatMap BlockIndexEntry.bytes) = .ok preamble.indexHash)
    (hentries : ∀ e ∈ entries, e.validate = .ok ()) :
    parseBlockIndex (preamble.bytes ++ entries.flatMap BlockIndexEntry.bytes) algo = .ok (preamble, entries) := by
  have hlen : preamble.bytes.length = indexPreambleSize := length_indexPreamble preamble
  have htotal : (preamble.bytes ++ entries.flatMap BlockIndexEntry.bytes).length =
      indexPreambleSize + entries.length * blockIndexEntrySize := by
    rw [List.length_append, hlen, length_entries]
    rfl
  simp [parseBlockIndex, List.take_left' hlen, List.drop_left' hlen, parse_indexPreamble hvalid, htotal, hcount, hhash,
    parseEntries_flatMap hentries, -List.length_append]

/-- An index that was marshalled was valid, and is read back. -/
theorem marshalBlockIndex_ok {t : Trailer} {buf : Bytes} {preamble : IndexPreamble}
    (h : marshalBlockIndex entries t = .ok (buf, preamble)) :
    validateIndex entries t = .ok () ∧ buf = preamble.bytes ++ entries.flatMap BlockIndexEntry.bytes ∧
      parseBlockIndex buf t.hashAlgo = .ok (preamble, entries) := by
  simp only [marshalBlockIndex, checks_ok, Nat.not_lt] at h
  obtain ⟨hne, hmax, hindex, hentries, hash, hhash, rfl, rfl⟩ := h
  have hcount : (u32 entries.length).toNat = entries.length := by
    simp only [maxBlockCount, indexPreambleSize, blockIndexEntrySize] at hmax
    exact UInt32.toNat_ofNat_of_lt (by simp only [UInt32.size]; omega)
  have hvalid : (⟨0, u32 blockIndexEntrySize, u32 entries.length, hash⟩ : IndexPreamble).validate = .ok () := by
    have hpos : u32 entries.length ≠ 0 := by
      intro hzero
      rw [hzero] at hcount
      exact hne (List.eq_nil_of_length_eq_zero hcount.symm)
    have hle : ¬u32 entries.length > u32 maxBlockCount := by
      rw [gt_iff_lt, UInt32.lt_iff_toNat_lt, hcount]
      exact Nat.not_lt.2 hmax
    simp [IndexPreamble.validate, hpos, hle]
  exact ⟨hindex, rfl, parse_blockIndex hvalid hcount hhash (validateEntries_ok.1 hentries)⟩

end Hashed

end ObjLog.Segformat
