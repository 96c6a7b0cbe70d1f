import ObjLog.Catformat.Canonical
/-!
# The parsers stay inside their input

The parsers of `Catformat.Codec` once more, with the bounds checks Go makes at
every slice. They return what the parsers without the checks return, so no
slice is out of range, whatever the input.
-/

namespace ObjLog.Catformat

open Lib

variable {encoded : Bytes} {n i offset : Nat}

namespace Bounded

def parseLeafEntry (src : Bytes) : Checked Err LeafEntry := do
  Checked.failIf (src.length ≠ leafEntrySize) (invalidf s!"leaf entry size={src.length}, want {leafEntrySize}")
  Checked.failIf (!allZero (← sliceAt src 120 128)) (invalidf "leaf entry reserved bytes are non-zero")
  pure {
    baseLSN := uint64 (← sliceAt src 0 8)
    lastLSN := uint64 (← sliceAt src 8 16)
    minTimestampMS := int64 (← sliceAt src 16 24)
    maxTimestampMS := int64 (← sliceAt src 24 32)
    recordCount := uint32 (← sliceAt src 32 36)
    blockCount := uint32 (← sliceAt src 36 40)
    sizeBytes := uint64 (← sliceAt src 40 48)
    blockIndexOffset := uint64 (← sliceAt src 48 56)
    blockIndexLength := uint32 (← sliceAt src 56 60)
    codec := ⟨uint16 (← sliceAt src 60 62)⟩
    hashAlgo := ⟨uint16 (← sliceAt src 62 64)⟩
    segmentHash := uint64 (← sliceAt src 64 72)
    trailerHash := uint64 (← sliceAt src 72 80)
    writerEpoch := uint64 (← sliceAt src 80 88)
    segmentUUID := .ofBytes 16 (← sliceAt src 88 104)
    writerTag := .ofBytes 16 (← sliceAt src 104 120) }

def parseIndexEntry (src : Bytes) : Checked Err IndexEntry := do
  Checked.failIf (src.length ≠ indexEntrySize) (invalidf s!"index entry size={src.length}, want {indexEntrySize}")
  Checked.failIf (!allZero (← sliceAt src 1 4) || !allZero (← sliceAt src 72 80))
    (invalidf "index entry reserved bytes are non-zero")
  pure {
    level := uint8 (← sliceAt src 0 1)
    entryCount := uint32 (← sliceAt src 4 8)
    seqLo := uint64 (← sliceAt src 8 16)
    seqHi := uint64 (← sliceAt src 16 24)
    minTimestampMS := int64 (← sliceAt src 24 32)
    maxTimestampMS := int64 (← sliceAt src 32 40)
    generation := uint64 (← sliceAt src 40 48)
    pageID := .ofBytes 16 (← sliceAt src 48 64)
    segmentCount := uint64 (← sliceAt src 64 72) }

def parsePageHeader (src : Bytes) : Checked Err (PageHeader × Magic) := do
  Checked.failIf (src.length ≠ pageHeaderSize) (invalidf s!"page header size={src.length}, want {pageHeaderSize}")
  let magic ← sliceAt src 0 4
  Checked.failIf (magic ≠ leafMagic ∧ magic ≠ indexMagic) (invalidf s!"unknown page magic={quoted magic}")
  let version' := uint16 (← sliceAt src 4 6)
  Checked.failIf (version' ≠ version) (.of .unsupportedVersion ("page version=" ++ toString version'))
  let length := uint16 (← sliceAt src 6 8)
  Checked.failIf (length ≠ UInt16.ofNat pageHeaderSize)
    (invalidf s!"page header_len={length}, want {pageHeaderSize}")
  Checked.failIf (!allZero (← sliceAt src 17 18) || !allZero (← sliceAt src 28 32) || !allZero (← sliceAt src 120 128))
    (invalidf "page header reserved bytes are non-zero")
  let header : PageHeader := {
    flags := uint32 (← sliceAt src 8 12)
    partition := uint32 (← sliceAt src 12 16)
    level := uint8 (← sliceAt src 16 17)
    hashAlgo := ⟨uint16 (← sliceAt src 18 20)⟩
    entryCount := uint32 (← sliceAt src 20 24)
    entrySize := uint32 (← sliceAt src 24 28)
    seqLo := uint64 (← sliceAt src 32 40)
    seqHi := uint64 (← sliceAt src 40 48)
    minTimestampMS := int64 (← sliceAt src 48 56)
    maxTimestampMS := int64 (← sliceAt src 56 64)
    generation := uint64 (← sliceAt src 64 72)
    writerEpoch := uint64 (← sliceAt src 72 80)
    streamKey := .ofBytes 32 (← sliceAt src 80 112)
    segmentCount := uint64 (← sliceAt src 112 120) }
  Checked.of (validateCommonPageHeader header)
  pure (header, magic)

def parseHeadHeader (src : Bytes) : Checked Err HeadHeader := do
  Checked.failIf (src.length ≠ headHeaderSize) (invalidf s!"head header size={src.length}, want {headHeaderSize}")
  let magic ← sliceAt src 0 4
  Checked.failIf (magic ≠ headMagic) (invalidf s!"head magic={quoted magic}, want {quoted headMagic}")
  let version' := uint16 (← sliceAt src 4 6)
  Checked.failIf (version' ≠ version) (.of .unsupportedVersion ("head version=" ++ toString version'))
  let length := uint16 (← sliceAt src 6 8)
  Checked.failIf (length ≠ UInt16.ofNat headHeaderSize)
    (invalidf s!"head header_len={length}, want {headHeaderSize}")
  Checked.failIf (!allZero (← sliceAt src 36 40) || !allZero (← sliceAt src 184 192))
    (invalidf "head header reserved bytes are non-zero")
  let header : HeadHeader := {
    flags := uint32 (← sliceAt src 8 12)
    partition := uint32 (← sliceAt src 12 16)
    hashAlgo := ⟨uint16 (← sliceAt src 16 18)⟩
    segmentLayoutVersion := uint16 (← sliceAt src 18 20)
    leafLimit := uint32 (← sliceAt src 20 24)
    indexLimit := uint32 (← sliceAt src 24 28)
    activeCount := uint32 (← sliceAt src 28 32)
    levelCount := uint32 (← sliceAt src 32 36)
    nextLSN := uint64 (← sliceAt src 40 48)
    oldestLSN := uint64 (← sliceAt src 48 56)
    appliedRetentionLSN := uint64 (← sliceAt src 56 64)
    appliedRetentionVersion := uint64 (← sliceAt src 64 72)
    writerEpoch := uint64 (← sliceAt src 72 80)
    generation := uint64 (← sliceAt src 80 88)
    segmentCount := uint64 (← sliceAt src 88 96)
    reachableSegmentCount := uint64 (← sliceAt src 176 184)
    writerID := .ofBytes 16 (← sliceAt src 96 112)
    streamKey := .ofBytes 32 (← sliceAt src 112 144)
    dataRootKey := .ofBytes 32 (← sliceAt src 144 176) }
  Checked.of (validateHashAlgo header.hashAlgo)
  Checked.failIf (header.segmentLayoutVersion ≠ segmentLayoutV1)
    (.of .unsupportedLayout s!"{header.segmentLayoutVersion}")
  Checked.failIf (header.leafLimit = 0 ∨ header.leafLimit.toNat > maxLeafEntries ∨ header.indexLimit < 2 ∨
      header.indexLimit.toNat > maxIndexEntries)
    (invalidf s!"head limits leaf={header.leafLimit} index={header.indexLimit} are invalid")
  pure header

def parseSectionHeader (src : Bytes) : Checked Err (UInt8 × UInt32) := do
  Checked.failIf (src.length ≠ sectionHeaderSize)
    (invalidf s!"section header size={src.length}, want {sectionHeaderSize}")
  let magic ← sliceAt src 0 4
  Checked.failIf (magic ≠ sectionMagic) (invalidf s!"section magic={quoted magic}, want {quoted sectionMagic}")
  Checked.failIf (!allZero (← sliceAt src 5 8) || !allZero (← sliceAt src 12 16))
    (invalidf "section reserved bytes are non-zero")
  pure (uint8 (← sliceAt src 4 5), uint32 (← sliceAt src 8 12))

/-- `count` fixed-size entries starting at `offset`. -/
def parseEntries {α : Type} (size : Nat) (parse : Bytes → Checked Err α) (name : Nat → String) (encoded : Bytes) :
    Nat → Nat → Nat → Checked Err (List α)
  | 0, _, _ => pure []
  | count + 1, i, offset => do
    let entry ← Checked.mapError (fun e => invalidf (name i ++ ": " ++ e.text))
      (parse (← sliceAt encoded offset (offset + size)))
    let rest ← parseEntries size parse name encoded count (i + 1) (offset + size)
    pure (entry :: rest)

def parseActive (encoded : Bytes) (bodyEnd : Nat) : Nat → Nat → Nat → Checked Err (List LeafEntry × Nat)
  | 0, _, offset => pure ([], offset)
  | count + 1, i, offset => do
    Checked.failIf (bodyEnd < offset + leafEntrySize) (invalidf s!"head truncated in active leaf {i}")
    let entry ← Checked.mapError (fun e => invalidf s!"head active leaf {i}: {e.text}")
      (parseLeafEntry (← sliceAt encoded offset (offset + leafEntrySize)))
    let (rest, last) ← parseActive encoded bodyEnd count (i + 1) (offset + leafEntrySize)
    pure (entry :: rest, last)

def parseSections (encoded : Bytes) (bodyEnd : Nat) (header : HeadHeader) :
    Nat → Nat → Nat → Checked Err (List OpenIndexSection × Nat)
  | 0, _, offset => pure ([], offset)
  | count + 1, i, offset => do
    Checked.failIf (bodyEnd < offset + sectionHeaderSize) (invalidf s!"head truncated before section {i + 1}")
    let (level, entryCount) ← Checked.mapError (fun e => invalidf s!"head section {i + 1}: {e.text}")
      (parseSectionHeader (← sliceAt encoded offset (offset + sectionHeaderSize)))
    let offset := offset + sectionHeaderSize
    Checked.failIf (entryCount ≥ header.indexLimit ∨ entryCount.toNat > maxIndexEntries)
      (invalidf s!"head section level={level} count={entryCount} is invalid for index_limit={header.indexLimit}")
    Checked.failIf (bodyEnd < offset + entryCount.toNat * indexEntrySize)
      (invalidf s!"head truncated in section level={level}")
    let entries ← parseEntries indexEntrySize parseIndexEntry (fun j => s!"head section level={level} entry={j}")
      encoded entryCount.toNat 0 offset
    let (rest, last) ← parseSections encoded bodyEnd header count (i + 1)
      (offset + entryCount.toNat * indexEntrySize)
    pure (⟨level, entries⟩ :: rest, last)

variable [Hashes]

def verifyTrailer (encoded : Bytes) (algo : HashAlgo) : Checked Err Unit := do
  Checked.failIf (encoded.length < trailerSize) (invalidf s!"object size={encoded.length} is below trailer size")
  Checked.of (validateHashAlgo algo)
  let trailer ← sliceAt encoded (encoded.length - trailerSize) encoded.length
  let magic ← sliceAt trailer 0 4
  Checked.failIf (magic ≠ trailerMagic) (invalidf s!"trailer magic={quoted magic}, want {quoted trailerMagic}")
  let length := uint16 (← sliceAt trailer 4 6)
  Checked.failIf (length ≠ UInt16.ofNat trailerSize) (invalidf s!"trailer_len={length}, want {trailerSize}")
  Checked.failIf (!allZero (← sliceAt trailer 6 8) || !allZero (← sliceAt trailer 24 32))
    (invalidf "trailer reserved bytes are non-zero")
  let wantTrailerHash := uint64 (← sliceAt trailer 16 24)
  let gotTrailerHash ← Checked.of (hashBytes algo (slice trailer 0 16 ++ (zeros 8 ++ slice trailer 24 32)))
  Checked.failIf (gotTrailerHash ≠ wantTrailerHash)
    (.of .integrityMismatch s!"trailer hash got={hexPad16 gotTrailerHash.toNat} want={hexPad16 wantTrailerHash.toNat}")
  let wantBodyHash := uint64 (← sliceAt trailer 8 16)
  let gotBodyHash ← Checked.of (hashBytes algo (← sliceAt encoded 0 (encoded.length - trailerSize)))
  Checked.failIf (gotBodyHash ≠ wantBodyHash)
    (.of .integrityMismatch s!"body hash got={hexPad16 gotBodyHash.toNat} want={hexPad16 wantBodyHash.toNat}")

def parsePage (encoded : Bytes) (wantMagic : Magic) : Checked Err PageHeader := do
  Checked.failIf (encoded.length < pageHeaderSize + trailerSize)
    (invalidf s!"page size={encoded.length} is below minimum={pageHeaderSize + trailerSize}")
  let (header, magic) ← parsePageHeader (← sliceAt encoded 0 pageHeaderSize)
  Checked.failIf (magic ≠ wantMagic) (invalidf s!"page magic={quoted magic}, want {quoted wantMagic}")
  let wantEntrySize := if wantMagic = indexMagic then indexEntrySize else leafEntrySize
  let wantMax := if wantMagic = indexMagic then maxIndexEntries else maxLeafEntries
  Checked.failIf (header.entrySize.toNat ≠ wantEntrySize)
    (invalidf s!"page entry_size={header.entrySize}, want {wantEntrySize}")
  Checked.failIf (header.entryCount = 0 ∨ header.entryCount.toNat > wantMax)
    (invalidf s!"page entry_count={header.entryCount} outside [1,{wantMax}]")
  let wantSize := pageHeaderSize + header.entryCount.toNat * wantEntrySize + trailerSize
  Checked.failIf (encoded.length ≠ wantSize) (invalidf s!"page size={encoded.length}, want {wantSize}")
  verifyTrailer encoded header.hashAlgo
  pure header

def parseLeafPage (encoded : Bytes) : Checked Err (LeafPage × Arr 16) := do
  let header ← parsePage encoded leafMagic
  let entries ← parseEntries leafEntrySize parseLeafEntry (fun i => s!"leaf entry {i}") encoded
    header.entryCount.toNat 0 pageHeaderSize
  let page : LeafPage := ⟨header, entries⟩
  Checked.of (validateLeafPage page)
  pure (page, pageID (← sliceAt encoded 0 (encoded.length - trailerSize)))

def parseIndexPage (encoded : Bytes) : Checked Err (IndexPage × Arr 16) := do
  let header ← parsePage encoded indexMagic
  let entries ← parseEntries indexEntrySize parseIndexEntry (fun i => s!"index entry {i}") encoded
    header.entryCount.toNat 0 pageHeaderSize
  let page : IndexPage := ⟨header, entries⟩
  Checked.of (validateIndexPage page)
  pure (page, pageID (← sliceAt encoded 0 (encoded.length - trailerSize)))

def parseHead (encoded : Bytes) : Checked Err Head := do
  Checked.failIf (encoded.length < headHeaderSize + leafEntrySize + trailerSize)
    (invalidf s!"head size={encoded.length} is below minimum={headHeaderSize + leafEntrySize + trailerSize}")
  let header ← parseHeadHeader (← sliceAt encoded 0 headHeaderSize)
  Checked.failIf (header.activeCount ≥ header.leafLimit ∨ header.activeCount.toNat > maxLeafEntries)
    (invalidf s!"head active_count={header.activeCount} is invalid for leaf_limit={header.leafLimit}")
  Checked.failIf (header.levelCount.toNat > maxOpenIndexLevel)
    (invalidf s!"head level_count={header.levelCount} exceeds maximum={maxOpenIndexLevel}")
  verifyTrailer encoded header.hashAlgo
  let lastSegment ← Checked.mapError (fun e => invalidf s!"head last_segment: {e.text}")
    (parseLeafEntry (← sliceAt encoded headHeaderSize (headHeaderSize + leafEntrySize)))
  let bodyEnd := encoded.length - trailerSize
  let (active, offset) ← parseActive encoded bodyEnd header.activeCount.toNat 0 (headHeaderSize + leafEntrySize)
  let (sections, offset) ← parseSections encoded bodyEnd header header.levelCount.toNat 0 offset
  Checked.failIf (offset ≠ bodyEnd) (invalidf s!"head has {bodyEnd - offset} unclaimed body bytes")
  let head : Head := ⟨header, lastSegment, active, sections⟩
  Checked.of (validateHead head)
  pure head

end Bounded

open Checked

/-! ## Every slice is in range -/

theorem parseLeafEntry_inRange (src : Bytes) : Bounded.parseLeafEntry src = .of (parseLeafEntry src) := by
  unfold Bounded.parseLeafEntry parseLeafEntry
  refine failIf_bind fun hlen => ?_
  replace hlen : src.length = 128 := not_not.1 hlen
  simp (disch := omega) only [sliceAt_bind]
  exact failIf_bind fun _ => rfl

theorem parseIndexEntry_inRange (src : Bytes) : Bounded.parseIndexEntry src = .of (parseIndexEntry src) := by
  unfold Bounded.parseIndexEntry parseIndexEntry
  refine failIf_bind fun hlen => ?_
  replace hlen : src.length = 80 := not_not.1 hlen
  simp (disch := omega) only [sliceAt_bind]
  exact failIf_bind fun _ => rfl

theorem parsePageHeader_inRange (src : Bytes) : Bounded.parsePageHeader src = .of (parsePageHeader src) := by
  unfold Bounded.parsePageHeader parsePageHeader
  refine failIf_bind fun hlen => ?_
  replace hlen : src.length = 128 := not_not.1 hlen
  simp (disch := omega) only [sliceAt_bind]
  refine failIf_bind fun _ => failIf_bind fun _ => failIf_bind fun _ => failIf_bind fun _ => ?_
  exact bind_of fun _ _ => rfl

theorem parseHeadHeader_inRange (src : Bytes) : Bounded.parseHeadHeader src = .of (parseHeadHeader src) := by
  unfold Bounded.parseHeadHeader parseHeadHeader
  refine failIf_bind fun hlen => ?_
  replace hlen : src.length = 192 := not_not.1 hlen
  simp (disch := omega) only [sliceAt_bind]
  refine failIf_bind fun _ => failIf_bind fun _ => failIf_bind fun _ => failIf_bind fun _ => ?_
  exact bind_of fun _ _ => failIf_bind fun _ => failIf_bind fun _ => rfl

theorem parseSectionHeader_inRange (src : Bytes) : Bounded.parseSectionHeader src = .of (parseSectionHeader src) := by
  unfold Bounded.parseSectionHeader parseSectionHeader
  refine failIf_bind fun hlen => ?_
  replace hlen : src.length = 16 := not_not.1 hlen
  simp (disch := omega) only [sliceAt_bind]
  exact failIf_bind fun _ => failIf_bind fun _ => rfl

/-- The loop over entries reads `n * size` bytes and no more. -/
theorem parseEntries_inRange {α : Type} {size : Nat} {parse' : Bytes → Checked Err α} {parse : Bytes → Except Err α}
    (hparse : ∀ src, parse' src = .of (parse src)) (name : Nat → String)
    (hend : offset + n * size ≤ encoded.length) :
    Bounded.parseEntries size parse' name encoded n i offset = .of (parseEntries size parse name encoded n i offset) := by
  induction n generalizing i offset with
  | zero => rfl
  | succ n ih =>
    rw [Nat.succ_mul] at hend
    unfold Bounded.parseEntries parseEntries
    rw [sliceAt_bind (by omega) (by omega), hparse, mapError_restate]
    refine bind_of fun entry _ => ?_
    rw [ih (by omega)]
    exact bind_of fun rest _ => rfl

theorem parseActive_inRange {bodyEnd : Nat} (hend : bodyEnd ≤ encoded.length) :
    Bounded.parseActive encoded bodyEnd n i offset = .of (parseActive encoded bodyEnd n i offset) := by
  induction n generalizing i offset with
  | zero => rfl
  | succ n ih =>
    unfold Bounded.parseActive parseActive
    refine failIf_bind fun hroom => ?_
    rw [sliceAt_bind (by omega) (by omega), parseLeafEntry_inRange, mapError_restate]
    refine bind_of fun entry _ => ?_
    rw [ih]
    exact bind_of fun rest _ => rfl

theorem parseSections_inRange {header : HeadHeader} {bodyEnd : Nat} (hend : bodyEnd ≤ encoded.length) :
    Bounded.parseSections encoded bodyEnd header n i offset = .of (parseSections encoded bodyEnd header n i offset) := by
  induction n generalizing i offset with
  | zero => rfl
  | succ n ih =>
    unfold Bounded.parseSections parseSections
    refine failIf_bind fun hroom => ?_
    rw [sliceAt_bind (by omega) (by omega), parseSectionHeader_inRange, mapError_restate]
    refine bind_of fun x _ => failIf_bind fun _ => failIf_bind fun hentries => ?_
    rw [parseEntries_inRange parseIndexEntry_inRange _ (by omega)]
    refine bind_of fun entries _ => ?_
    rw [ih]
    exact bind_of fun rest _ => rfl

section Hashed
variable [Hashes]

theorem verifyTrailer_inRange (encoded : Bytes) (algo : HashAlgo) :
    Bounded.verifyTrailer encoded algo = .of (verifyTrailer encoded algo) := by
  unfold Bounded.verifyTrailer verifyTrailer
  refine failIf_bind fun hmin => bind_of fun _ _ => ?_
  replace hmin : 32 ≤ encoded.length := Nat.not_lt.1 hmin
  rw [sliceAt_bind (by omega) (Nat.le_refl _)]
  have hlen : (slice encoded (encoded.length - trailerSize) encoded.length).length = 32 :=
    length_slice_of_le _ (by simp only [trailerSize]; omega) (Nat.le_refl _)
  generalize slice encoded (encoded.length - trailerSize) encoded.length = trailer at hlen
  simp (disch := omega) only [sliceAt_bind]
  refine failIf_bind fun _ => failIf_bind fun _ => failIf_bind fun _ => bind_of fun _ _ => failIf_bind fun _ => ?_
  exact bind_of fun _ _ => rfl

theorem parsePage_inRange (encoded : Bytes) (magic : Magic) :
    Bounded.parsePage encoded magic = .of (parsePage encoded magic) := by
  unfold Bounded.parsePage parsePage
  refine failIf_bind fun hmin => ?_
  replace hmin : 128 + 32 ≤ encoded.length := Nat.not_lt.1 hmin
  rw [sliceAt_bind (by omega) (by simp only [pageHeaderSize]; omega), parsePageHeader_inRange]
  refine bind_of fun x _ => ?_
  refine failIf_bind fun _ => failIf_bind fun _ => failIf_bind fun _ => failIf_bind fun _ => ?_
  rw [verifyTrailer_inRange]
  exact bind_of fun _ _ => rfl

theorem parseLeafPage_inRange (encoded : Bytes) : Bounded.parseLeafPage encoded = .of (parseLeafPage encoded) := by
  unfold Bounded.parseLeafPage parseLeafPage
  rw [parsePage_inRange]
  refine bind_of fun header hpage => ?_
  obtain ⟨-, -, hsize⟩ := parsePage_ok hpage
  rw [if_neg (by decide)] at hsize
  rw [parseEntries_inRange parseLeafEntry_inRange _ (by omega)]
  refine bind_of fun entries _ => bind_of fun _ _ => ?_
  rw [sliceAt_bind (Nat.zero_le _) (Nat.sub_le ..)]
  rfl

theorem parseIndexPage_inRange (encoded : Bytes) : Bounded.parseIndexPage encoded = .of (parseIndexPage encoded) := by
  unfold Bounded.parseIndexPage parseIndexPage
  rw [parsePage_inRange]
  refine bind_of fun header hpage => ?_
  obtain ⟨-, -, hsize⟩ := parsePage_ok hpage
  rw [if_pos rfl] at hsize
  rw [parseEntries_inRange parseIndexEntry_inRange _ (by omega)]
  refine bind_of fun entries _ => bind_of fun _ _ => ?_
  rw [sliceAt_bind (Nat.zero_le _) (Nat.sub_le ..)]
  rfl

theorem parseHead_inRange (encoded : Bytes) : Bounded.parseHead encoded = .of (parseHead encoded) := by
  unfold Bounded.parseHead parseHead
  refine failIf_bind fun hmin => ?_
  replace hmin : 192 + 128 + 32 ≤ encoded.length := Nat.not_lt.1 hmin
  rw [sliceAt_bind (by omega) (by simp only [headHeaderSize]; omega), parseHeadHeader_inRange]
  refine bind_of fun header _ => failIf_bind fun _ => failIf_bind fun _ => ?_
  rw [verifyTrailer_inRange]
  refine bind_of fun _ _ => ?_
  rw [sliceAt_bind (by omega) (by simp only [headHeaderSize, leafEntrySize]; omega), parseLeafEntry_inRange,
    mapError_restate]
  refine bind_of fun last _ => ?_
  dsimp only
  rw [parseActive_inRange (Nat.sub_le ..)]
  refine bind_of fun parsed _ => ?_
  obtain ⟨active, offset⟩ := parsed
  dsimp only
  rw [parseSections_inRange (Nat.sub_le ..)]
  exact bind_of fun sections _ => failIf_bind fun _ => bind_of fun _ _ => rfl

/-! ## The codec -/

/-- Marshalling and parsing are inverse to each other, and no input makes a parser slice out of range. -/
theorem codec_canonical : (∀ head encoded, marshalHead head = .ok encoded ↔ parseHead encoded = .ok head) ∧
    (∀ page encoded id, marshalLeafPage page = .ok (encoded, id) ↔ parseLeafPage encoded = .ok (page, id)) ∧
    (∀ page encoded id, marshalIndexPage page = .ok (encoded, id) ↔ parseIndexPage encoded = .ok (page, id)) ∧
    (∀ encoded, Bounded.parseHead encoded = .of (parseHead encoded) ∧
      Bounded.parseLeafPage encoded = .of (parseLeafPage encoded) ∧
      Bounded.parseIndexPage encoded = .of (parseIndexPage encoded)) ∧
    ∀ encoded, Bounded.parseHead encoded ≠ .error .outOfRange ∧ Bounded.parseLeafPage encoded ≠ .error .outOfRange ∧
      Bounded.parseIndexPage encoded ≠ .error .outOfRange := by
  refine ⟨fun _ _ => ⟨parse_marshalHead, marshal_parseHead⟩, fun _ _ _ => ⟨parse_marshalLeafPage, marshal_parseLeafPage⟩,
    fun _ _ _ => ⟨parse_marshalIndexPage, marshal_parseIndexPage⟩,
    fun encoded => ⟨parseHead_inRange _, parseLeafPage_inRange _, parseIndexPage_inRange _⟩, fun encoded => ?_⟩
  rw [parseHead_inRange, parseLeafPage_inRange, parseIndexPage_inRange]
  exact ⟨of_ne_outOfRange _, of_ne_outOfRange _, of_ne_outOfRange _⟩

end Hashed

end ObjLog.Catformat
