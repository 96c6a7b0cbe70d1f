import ObjLog.Catformat.Validate
/-!
# The binary codec, `catformat/codec.go`

A record is the concatenation of its fields in offset order, reserved bytes
included; parsing reads the same offsets back through `slice`.
-/

namespace ObjLog.Catformat

open Lib

abbrev Magic := Bytes

def headMagic : Magic := [80, 76, 67, 72]
def leafMagic : Magic := [80, 76, 67, 76]
def indexMagic : Magic := [80, 76, 67, 88]
def sectionMagic : Magic := [80, 76, 67, 83]
def trailerMagic : Magic := [80, 76, 67, 84]

/-- `%q` of a byte string; bytes outside printable ASCII are escaped. -/
def quoted (b : Bytes) : String :=
  "\"" ++ String.join (b.map fun c =>
    if c.toNat = 34 then "\\\"" else if c.toNat = 92 then "\\\\"
    else if 32 ≤ c.toNat ∧ c.toNat < 127 then String.singleton (Char.ofNat c.toNat)
    else "\\x" ++ hexNat (c.toNat / 16) ++ hexNat (c.toNat % 16)) ++ "\""

/-! ## Entries -/

def marshalLeafEntry (entry : LeafEntry) : Bytes :=
  putUint64 entry.baseLSN ++ (putUint64 entry.lastLSN ++ (putInt64 entry.minTimestampMS ++
  (putInt64 entry.maxTimestampMS ++ (putUint32 entry.recordCount ++ (putUint32 entry.blockCount ++
  (putUint64 entry.sizeBytes ++ (putUint64 entry.blockIndexOffset ++ (putUint32 entry.blockIndexLength ++
  (putUint16 entry.codec.val ++ (putUint16 entry.hashAlgo.val ++ (putUint64 entry.segmentHash ++
  (putUint64 entry.trailerHash ++ (putUint64 entry.writerEpoch ++ (entry.segmentUUID.bytes ++
  (entry.writerTag.bytes ++ zeros 8)))))))))))))))

def parseLeafEntry (src : Bytes) : Except Err LeafEntry := do
  failIf (src.length ≠ leafEntrySize) (invalidf s!"leaf entry size={src.length}, want {leafEntrySize}")
  failIf (!allZero (slice src 120 128)) (invalidf "leaf entry reserved bytes are non-zero")
  pure {
    baseLSN := uint64 (slice src 0 8)
    lastLSN := uint64 (slice src 8 16)
    minTimestampMS := int64 (slice src 16 24)
    maxTimestampMS := int64 (slice src 24 32)
    recordCount := uint32 (slice src 32 36)
    blockCount := uint32 (slice src 36 40)
    sizeBytes := uint64 (slice src 40 48)
    blockIndexOffset := uint64 (slice src 48 56)
    blockIndexLength := uint32 (slice src 56 60)
    codec := ⟨uint16 (slice src 60 62)⟩
    hashAlgo := ⟨uint16 (slice src 62 64)⟩
    segmentHash := uint64 (slice src 64 72)
    trailerHash := uint64 (slice src 72 80)
    writerEpoch := uint64 (slice src 80 88)
    segmentUUID := .ofBytes 16 (slice src 88 104)
    writerTag := .ofBytes 16 (slice src 104 120) }

def marshalIndexEntry (entry : IndexEntry) : Bytes :=
  putUint8 entry.level ++ (zeros 3 ++ (putUint32 entry.entryCount ++ (putUint64 entry.seqLo ++
  (putUint64 entry.seqHi ++ (putInt64 entry.minTimestampMS ++ (putInt64 entry.maxTimestampMS ++
  (putUint64 entry.generation ++ (entry.pageID.bytes ++ (putUint64 entry.segmentCount ++ zeros 8)))))))))

def parseIndexEntry (src : Bytes) : Except Err IndexEntry := do
  failIf (src.length ≠ indexEntrySize) (invalidf s!"index entry size={src.length}, want {indexEntrySize}")
  failIf (!allZero (slice src 1 4) || !allZero (slice src 72 80))
    (invalidf "index entry reserved bytes are non-zero")
  pure {
    level := uint8 (slice src 0 1)
    entryCount := uint32 (slice src 4 8)
    seqLo := uint64 (slice src 8 16)
    seqHi := uint64 (slice src 16 24)
    minTimestampMS := int64 (slice src 24 32)
    maxTimestampMS := int64 (slice src 32 40)
    generation := uint64 (slice src 40 48)
    pageID := .ofBytes 16 (slice src 48 64)
    segmentCount := uint64 (slice src 64 72) }

/-! ## Headers -/

def marshalPageHeader (magic : Magic) (header : PageHeader) : Bytes :=
  magic ++ (putUint16 version ++ (putUint16 (UInt16.ofNat pageHeaderSize) ++ (putUint32 header.flags ++
  (putUint32 header.partition ++ (putUint8 header.level ++ (zeros 1 ++ (putUint16 header.hashAlgo.val ++
  (putUint32 header.entryCount ++ (putUint32 header.entrySize ++ (zeros 4 ++ (putUint64 header.seqLo ++
  (putUint64 header.seqHi ++ (putInt64 header.minTimestampMS ++ (putInt64 header.maxTimestampMS ++
  (putUint64 header.generation ++ (putUint64 header.writerEpoch ++ (header.streamKey.bytes ++
  (putUint64 header.segmentCount ++ zeros 8))))))))))))))))))

def parsePageHeader (src : Bytes) : Except Err (PageHeader × Magic) := do
  failIf (src.length ≠ pageHeaderSize) (invalidf s!"page header size={src.length}, want {pageHeaderSize}")
  let magic := slice src 0 4
  failIf (magic ≠ leafMagic ∧ magic ≠ indexMagic) (invalidf s!"unknown page magic={quoted magic}")
  let version' := uint16 (slice src 4 6)
  failIf (version' ≠ version) (.of .unsupportedVersion ("page version=" ++ toString version'))
  let length := uint16 (slice src 6 8)
  failIf (length ≠ UInt16.ofNat pageHeaderSize)
    (invalidf s!"page header_len={length}, want {pageHeaderSize}")
  failIf (!allZero (slice src 17 18) || !allZero (slice src 28 32) || !allZero (slice src 120 128))
    (invalidf "page header reserved bytes are non-zero")
  let header : PageHeader := {
    flags := uint32 (slice src 8 12)
    partition := uint32 (slice src 12 16)
    level := uint8 (slice src 16 17)
    hashAlgo := ⟨uint16 (slice src 18 20)⟩
    entryCount := uint32 (slice src 20 24)
    entrySize := uint32 (slice src 24 28)
    seqLo := uint64 (slice src 32 40)
    seqHi := uint64 (slice src 40 48)
    minTimestampMS := int64 (slice src 48 56)
    maxTimestampMS := int64 (slice src 56 64)
    generation := uint64 (slice src 64 72)
    writerEpoch := uint64 (slice src 72 80)
    streamKey := .ofBytes 32 (slice src 80 112)
    segmentCount := uint64 (slice src 112 120) }
  validateCommonPageHeader header
  pure (header, magic)

def marshalHeadHeader (header : HeadHeader) : Bytes :=
  headMagic ++ (putUint16 version ++ (putUint16 (UInt16.ofNat headHeaderSize) ++ (putUint32 header.flags ++
  (putUint32 header.partition ++ (putUint16 header.hashAlgo.val ++ (putUint16 header.segmentLayoutVersion ++
  (putUint32 header.leafLimit ++ (putUint32 header.indexLimit ++ (putUint32 header.activeCount ++
  (putUint32 header.levelCount ++ (zeros 4 ++ (putUint64 header.nextLSN ++ (putUint64 header.oldestLSN ++
  (putUint64 header.appliedRetentionLSN ++ (putUint64 header.appliedRetentionVersion ++
  (putUint64 header.writerEpoch ++ (putUint64 header.generation ++ (putUint64 header.segmentCount ++
  (header.writerID.bytes ++ (header.streamKey.bytes ++ (header.dataRootKey.bytes ++
  (putUint64 header.reachableSegmentCount ++ zeros 8))))))))))))))))))))))

def parseHeadHeader (src : Bytes) : Except Err HeadHeader := do
  failIf (src.length ≠ headHeaderSize) (invalidf s!"head header size={src.length}, want {headHeaderSize}")
  failIf (slice src 0 4 ≠ headMagic)
    (invalidf s!"head magic={quoted (slice src 0 4)}, want {quoted headMagic}")
  let version' := uint16 (slice src 4 6)
  failIf (version' ≠ version) (.of .unsupportedVersion ("head version=" ++ toString version'))
  let length := uint16 (slice src 6 8)
  failIf (length ≠ UInt16.ofNat headHeaderSize)
    (invalidf s!"head header_len={length}, want {headHeaderSize}")
  failIf (!allZero (slice src 36 40) || !allZero (slice src 184 192))
    (invalidf "head header reserved bytes are non-zero")
  let header : HeadHeader := {
    flags := uint32 (slice src 8 12)
    partition := uint32 (slice src 12 16)
    hashAlgo := ⟨uint16 (slice src 16 18)⟩
    segmentLayoutVersion := uint16 (slice src 18 20)
    leafLimit := uint32 (slice src 20 24)
    indexLimit := uint32 (slice src 24 28)
    activeCount := uint32 (slice src 28 32)
    levelCount := uint32 (slice src 32 36)
    nextLSN := uint64 (slice src 40 48)
    oldestLSN := uint64 (slice src 48 56)
    appliedRetentionLSN := uint64 (slice src 56 64)
    appliedRetentionVersion := uint64 (slice src 64 72)
    writerEpoch := uint64 (slice src 72 80)
    generation := uint64 (slice src 80 88)
    segmentCount := uint64 (slice src 88 96)
    reachableSegmentCount := uint64 (slice src 176 184)
    writerID := .ofBytes 16 (slice src 96 112)
    streamKey := .ofBytes 32 (slice src 112 144)
    dataRootKey := .ofBytes 32 (slice src 144 176) }
  validateHashAlgo header.hashAlgo
  failIf (header.segmentLayoutVersion ≠ segmentLayoutV1)
    (.of .unsupportedLayout s!"{header.segmentLayoutVersion}")
  failIf (header.leafLimit = 0 ∨ header.leafLimit.toNat > maxLeafEntries ∨ header.indexLimit < 2 ∨
      header.indexLimit.toNat > maxIndexEntries)
    (invalidf s!"head limits leaf={header.leafLimit} index={header.indexLimit} are invalid")
  pure header

def marshalSectionHeader (section_ : OpenIndexSection) : Bytes :=
  sectionMagic ++ (putUint8 section_.level ++ (zeros 3 ++ (putUint32 (UInt32.ofNat section_.entries.length) ++ zeros 4)))

/-- The section's level and entry count. -/
def parseSectionHeader (src : Bytes) : Except Err (UInt8 × UInt32) := do
  failIf (src.length ≠ sectionHeaderSize)
    (invalidf s!"section header size={src.length}, want {sectionHeaderSize}")
  failIf (slice src 0 4 ≠ sectionMagic)
    (invalidf s!"section magic={quoted (slice src 0 4)}, want {quoted sectionMagic}")
  failIf (!allZero (slice src 5 8) || !allZero (slice src 12 16))
    (invalidf "section reserved bytes are non-zero")
  pure (uint8 (slice src 4 5), uint32 (slice src 8 12))

/-! ## Trailer and page id -/

/-- The trailer with a given trailer hash. -/
def trailerBytes (bodyHash trailerHash : UInt64) : Bytes :=
  trailerMagic ++ (putUint16 (UInt16.ofNat trailerSize) ++ (zeros 2 ++ (putUint64 bodyHash ++
  (putUint64 trailerHash ++ zeros 8))))

variable [Hashes]

/-- The trailer hash is taken with its own eight bytes still zero. -/
def appendTrailer (body : Bytes) (algo : HashAlgo) : Except Err Bytes := do
  validateHashAlgo algo
  let bodyHash ← hashBytes algo body
  let trailerHash ← hashBytes algo (trailerBytes bodyHash 0)
  pure (body ++ trailerBytes bodyHash trailerHash)

def verifyTrailer (encoded : Bytes) (algo : HashAlgo) : Except Err Unit := do
  failIf (encoded.length < trailerSize) (invalidf s!"object size={encoded.length} is below trailer size")
  validateHashAlgo algo
  let body := slice encoded 0 (encoded.length - trailerSize)
  let trailer := slice encoded (encoded.length - trailerSize) encoded.length
  failIf (slice trailer 0 4 ≠ trailerMagic)
    (invalidf s!"trailer magic={quoted (slice trailer 0 4)}, want {quoted trailerMagic}")
  let length := uint16 (slice trailer 4 6)
  failIf (length ≠ UInt16.ofNat trailerSize) (invalidf s!"trailer_len={length}, want {trailerSize}")
  failIf (!allZero (slice trailer 6 8) || !allZero (slice trailer 24 32))
    (invalidf "trailer reserved bytes are non-zero")
  let wantTrailerHash := uint64 (slice trailer 16 24)
  let gotTrailerHash ← hashBytes algo (slice trailer 0 16 ++ (zeros 8 ++ slice trailer 24 32))
  failIf (gotTrailerHash ≠ wantTrailerHash)
    (.of .integrityMismatch s!"trailer hash got={hexPad16 gotTrailerHash.toNat} want={hexPad16 wantTrailerHash.toNat}")
  let wantBodyHash := uint64 (slice trailer 8 16)
  let gotBodyHash ← hashBytes algo body
  failIf (gotBodyHash ≠ wantBodyHash)
    (.of .integrityMismatch s!"body hash got={hexPad16 gotBodyHash.toNat} want={hexPad16 wantBodyHash.toNat}")

/-- The first sixteen bytes of SHA-256. -/
def pageID (body : Bytes) : Arr 16 := .ofBytes 16 (slice (Hashes.sha256 body).bytes 0 16)

/-! ## Pages -/

def leafPageBody (page : LeafPage) : Bytes :=
  marshalPageHeader leafMagic page.header ++ page.entries.flatMap marshalLeafEntry

def indexPageBody (page : IndexPage) : Bytes :=
  marshalPageHeader indexMagic page.header ++ page.entries.flatMap marshalIndexEntry

def marshalLeafPage (page : LeafPage) : Except Err (Bytes × Arr 16) := do
  validateLeafPage page
  let body := leafPageBody page
  let encoded ← appendTrailer body page.header.hashAlgo
  pure (encoded, pageID body)

def marshalIndexPage (page : IndexPage) : Except Err (Bytes × Arr 16) := do
  validateIndexPage page
  let body := indexPageBody page
  let encoded ← appendTrailer body page.header.hashAlgo
  pure (encoded, pageID body)

def parsePage (encoded : Bytes) (wantMagic : Magic) : Except Err PageHeader := do
  failIf (encoded.length < pageHeaderSize + trailerSize)
    (invalidf s!"page size={encoded.length} is below minimum={pageHeaderSize + trailerSize}")
  let (header, magic) ← parsePageHeader (slice encoded 0 pageHeaderSize)
  failIf (magic ≠ wantMagic) (invalidf s!"page magic={quoted magic}, want {quoted wantMagic}")
  let wantEntrySize := if wantMagic = indexMagic then indexEntrySize else leafEntrySize
  let wantMax := if wantMagic = indexMagic then maxIndexEntries else maxLeafEntries
  failIf (header.entrySize.toNat ≠ wantEntrySize)
    (invalidf s!"page entry_size={header.entrySize}, want {wantEntrySize}")
  failIf (header.entryCount = 0 ∨ header.entryCount.toNat > wantMax)
    (invalidf s!"page entry_count={header.entryCount} outside [1,{wantMax}]")
  let wantSize := pageHeaderSize + header.entryCount.toNat * wantEntrySize + trailerSize
  failIf (encoded.length ≠ wantSize) (invalidf s!"page size={encoded.length}, want {wantSize}")
  verifyTrailer encoded header.hashAlgo
  pure header

/-- `count` fixed-size entries starting at `offset`; `name` says which entry an
error is about. -/
def parseEntries {α : Type} (size : Nat) (parse : Bytes → Except Err α) (name : Nat → String) (encoded : Bytes) :
    Nat → Nat → Nat → Except Err (List α)
  | 0, _, _ => pure []
  | count + 1, i, offset => do
    let entry ← restate (parse (slice encoded offset (offset + size)))
      (fun e => invalidf (name i ++ ": " ++ e.text))
    let rest ← parseEntries size parse name encoded count (i + 1) (offset + size)
    pure (entry :: rest)

def parseLeafPage (encoded : Bytes) : Except Err (LeafPage × Arr 16) := do
  let header ← parsePage encoded leafMagic
  let entries ← parseEntries leafEntrySize parseLeafEntry (fun i => s!"leaf entry {i}") encoded
    header.entryCount.toNat 0 pageHeaderSize
  let page : LeafPage := ⟨header, entries⟩
  validateLeafPage page
  pure (page, pageID (slice encoded 0 (encoded.length - trailerSize)))

def parseIndexPage (encoded : Bytes) : Except Err (IndexPage × Arr 16) := do
  let header ← parsePage encoded indexMagic
  let entries ← parseEntries indexEntrySize parseIndexEntry (fun i => s!"index entry {i}") encoded
    header.entryCount.toNat 0 pageHeaderSize
  let page : IndexPage := ⟨header, entries⟩
  validateIndexPage page
  pure (page, pageID (slice encoded 0 (encoded.length - trailerSize)))

/-! ## The head -/

def sectionBytes (section_ : OpenIndexSection) : Bytes :=
  marshalSectionHeader section_ ++ section_.entries.flatMap marshalIndexEntry

def headBody (head : Head) : Bytes :=
  marshalHeadHeader head.header ++ (marshalLeafEntry head.lastSegment ++
  (head.active.flatMap marshalLeafEntry ++ head.sections.flatMap sectionBytes))

def marshalHead (head : Head) : Except Err Bytes := do
  validateHead head
  appendTrailer (headBody head) head.header.hashAlgo

/-- The open leaf's entries, up to `bodyEnd`; the result includes the offset
after them. -/
def parseActive (encoded : Bytes) (bodyEnd : Nat) : Nat → Nat → Nat → Except Err (List LeafEntry × Nat)
  | 0, _, offset => pure ([], offset)
  | count + 1, i, offset => do
    failIf (bodyEnd < offset + leafEntrySize) (invalidf s!"head truncated in active leaf {i}")
    let entry ← restate (parseLeafEntry (slice encoded offset (offset + leafEntrySize)))
      (fun e => invalidf s!"head active leaf {i}: {e.text}")
    let (rest, last) ← parseActive encoded bodyEnd count (i + 1) (offset + leafEntrySize)
    pure (entry :: rest, last)

def parseSections (encoded : Bytes) (bodyEnd : Nat) (header : HeadHeader) :
    Nat → Nat → Nat → Except Err (List OpenIndexSection × Nat)
  | 0, _, offset => pure ([], offset)
  | count + 1, i, offset => do
    failIf (bodyEnd < offset + sectionHeaderSize) (invalidf s!"head truncated before section {i + 1}")
    let (level, entryCount) ← restate (parseSectionHeader (slice encoded offset (offset + sectionHeaderSize)))
      (fun e => invalidf s!"head section {i + 1}: {e.text}")
    let offset := offset + sectionHeaderSize
    failIf (entryCount ≥ header.indexLimit ∨ entryCount.toNat > maxIndexEntries)
      (invalidf s!"head section level={level} count={entryCount} is invalid for index_limit={header.indexLimit}")
    failIf (bodyEnd < offset + entryCount.toNat * indexEntrySize)
      (invalidf s!"head truncated in section level={level}")
    let entries ← parseEntries indexEntrySize parseIndexEntry (fun j => s!"head section level={level} entry={j}")
      encoded entryCount.toNat 0 offset
    let (rest, last) ← parseSections encoded bodyEnd header count (i + 1)
      (offset + entryCount.toNat * indexEntrySize)
    pure (⟨level, entries⟩ :: rest, last)

def parseHead (encoded : Bytes) : Except Err Head := do
  failIf (encoded.length < headHeaderSize + leafEntrySize + trailerSize)
    (invalidf s!"head size={encoded.length} is below minimum={headHeaderSize + leafEntrySize + trailerSize}")
  let header ← parseHeadHeader (slice encoded 0 headHeaderSize)
  failIf (header.activeCount ≥ header.leafLimit ∨ header.activeCount.toNat > maxLeafEntries)
    (invalidf s!"head active_count={header.activeCount} is invalid for leaf_limit={header.leafLimit}")
  failIf (header.levelCount.toNat > maxOpenIndexLevel)
    (invalidf s!"head level_count={header.levelCount} exceeds maximum={maxOpenIndexLevel}")
  verifyTrailer encoded header.hashAlgo
  let lastSegment ← restate (parseLeafEntry (slice encoded headHeaderSize (headHeaderSize + leafEntrySize)))
    (fun e => invalidf s!"head last_segment: {e.text}")
  let bodyEnd := encoded.length - trailerSize
  let (active, offset) ← parseActive encoded bodyEnd header.activeCount.toNat 0 (headHeaderSize + leafEntrySize)
  let (sections, offset) ← parseSections encoded bodyEnd header header.levelCount.toNat 0 offset
  failIf (offset ≠ bodyEnd) (invalidf s!"head has {bodyEnd - offset} unclaimed body bytes")
  let head : Head := ⟨header, lastSegment, active, sections⟩
  validateHead head
  pure head

end ObjLog.Catformat
