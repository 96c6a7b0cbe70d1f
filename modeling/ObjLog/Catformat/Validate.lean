import ObjLog.Catformat.Types
/-!
# Structural validation, `catformat/validate.go`

Each loop of the source is a recursion that carries the index, the previous
entry and the running segment count.
-/

namespace ObjLog.Catformat

open Lib

def invalidf (text : String) : Err := .of .invalidObject text

/-- Lowercase hexadecimal digits of a number, as `%x` prints it. -/
def hexNat (n : Nat) : String := String.ofList (Nat.toDigits 16 n)

/-- `%016x`. -/
def hexPad16 (n : Nat) : String := String.ofList (List.leftpad 16 '0' (Nat.toDigits 16 n))

def isZero16 (value : Arr 16) : Bool := value = .zero 16
def isZero32 (value : Arr 32) : Bool := value = .zero 32

def validateLeafEntry (entry : LeafEntry) : Except Err Unit := do
  failIf (entry.baseLSN > entry.lastLSN ∨ entry.lastLSN > maxRecordLSN)
    (invalidf s!"invalid leaf LSN range [{entry.baseLSN},{entry.lastLSN}]")
  let span := entry.lastLSN - entry.baseLSN + 1
  failIf (span > maxUint32 ∨ entry.recordCount = 0 ∨ entry.recordCount.toUInt64 ≠ span)
    (invalidf s!"leaf record_count={entry.recordCount} does not match LSN span={span}")
  failIf (entry.minTimestampMS > entry.maxTimestampMS)
    (invalidf s!"leaf timestamp range [{entry.minTimestampMS},{entry.maxTimestampMS}] is inverted")
  failIf (entry.blockCount = 0) (invalidf "leaf block_count is zero")
  failIf (entry.sizeBytes = 0) (invalidf "leaf size_bytes is zero")
  failIf (entry.blockIndexLength = 0) (invalidf "leaf block_index_length is zero")
  restate entry.codec.validate (fun e => invalidf s!"leaf codec: {e.text}")
  restate entry.hashAlgo.validate (fun e => invalidf s!"leaf hash algorithm: {e.text}")
  failIf (entry.writerEpoch = 0) (invalidf "leaf writer_epoch is zero")
  failIf (isZero16 entry.segmentUUID) (invalidf "leaf segment_uuid is zero")
  failIf (isZero16 entry.writerTag) (invalidf "leaf writer_tag is zero")

def validateIndexEntry (entry : IndexEntry) : Except Err Unit := do
  failIf (entry.level.toNat > maxIndexLevel)
    (invalidf s!"index child level={entry.level} exceeds maximum={maxIndexLevel}")
  failIf (entry.seqLo > entry.seqHi ∨ entry.seqHi > maxRecordLSN)
    (invalidf s!"invalid index LSN range [{entry.seqLo},{entry.seqHi}]")
  failIf (entry.minTimestampMS > entry.maxTimestampMS)
    (invalidf s!"index timestamp range [{entry.minTimestampMS},{entry.maxTimestampMS}] is inverted")
  let limit := if entry.level = 0 then maxLeafEntries else maxIndexEntries
  failIf (entry.entryCount = 0 ∨ entry.entryCount.toNat > limit)
    (invalidf s!"index entry_count={entry.entryCount} outside [1,{limit}]")
  failIf (entry.generation = 0) (invalidf "index generation is zero")
  failIf (isZero16 entry.pageID) (invalidf "index page_id is zero")
  failIf (entry.segmentCount < entry.entryCount.toUInt64)
    (invalidf s!"index segment_count={entry.segmentCount} is below entry_count={entry.entryCount}")
  failIf (entry.level = 0 ∧ entry.segmentCount ≠ entry.entryCount.toUInt64)
    (invalidf s!"leaf reference segment_count={entry.segmentCount} differs from entry_count={entry.entryCount}")
  let span := entry.seqHi - entry.seqLo + 1
  failIf (entry.segmentCount > span)
    (invalidf s!"index segment_count={entry.segmentCount} exceeds LSN span={span}")

def validateCommonPageHeader (header : PageHeader) : Except Err Unit := do
  failIf (header.flags ≠ 0) (invalidf s!"page flags=0x{hexNat header.flags.toNat} contain unknown bits")
  restate header.hashAlgo.validate (fun e => invalidf s!"page hash algorithm: {e.text}")
  failIf (header.generation = 0) (invalidf "page generation is zero")
  failIf (header.writerEpoch = 0) (invalidf "page writer_epoch is zero")
  failIf (isZero32 header.streamKey) (invalidf "page stream_key is zero")

/-! ## Pages -/

/-- The entry loop of `validateLeafPage` from entry `i` on. -/
def validateLeafEntries : Nat → Option LeafEntry → List LeafEntry → Except Err Unit
  | _, _, [] => pure ()
  | i, previous, entry :: rest => do
    restate (validateLeafEntry entry) (fun e => invalidf s!"leaf entry {i}: {e.text}")
    match previous with
    | none => pure ()
    | some previous => do
      failIf (previous.lastLSN = maxRecordLSN ∨ entry.baseLSN ≠ previous.lastLSN + 1)
        (invalidf s!"leaf entries {i - 1} and {i} are not contiguous")
      failIf (entry.minTimestampMS < previous.maxTimestampMS)
        (invalidf s!"leaf timestamps decrease between entries {i - 1} and {i}")
      failIf (entry.writerEpoch < previous.writerEpoch)
        (invalidf s!"leaf writer epochs decrease between entries {i - 1} and {i}")
    validateLeafEntries (i + 1) (some entry) rest

def validateLeafPage (page : LeafPage) : Except Err Unit := do
  validateCommonPageHeader page.header
  failIf (page.header.level ≠ 0) (invalidf s!"leaf page level={page.header.level}, want 0")
  failIf (page.header.entrySize.toNat ≠ leafEntrySize)
    (invalidf s!"leaf page entry_size={page.header.entrySize}, want {leafEntrySize}")
  failIf (page.entries.length = 0 ∨ page.entries.length > maxLeafEntries)
    (invalidf s!"leaf page entry count={page.entries.length} outside [1,{maxLeafEntries}]")
  failIf (page.header.entryCount ≠ UInt32.ofNat page.entries.length)
    (invalidf s!"leaf header entry_count={page.header.entryCount}, actual={page.entries.length}")
  failIf (page.header.segmentCount ≠ UInt64.ofNat page.entries.length)
    (invalidf s!"leaf header segment_count={page.header.segmentCount}, want {page.entries.length}")
  validateLeafEntries 0 none page.entries
  let first := page.entries.headD .zero
  let last := page.entries.getLastD .zero
  failIf (page.header.seqLo ≠ first.baseLSN ∨ page.header.seqHi ≠ last.lastLSN ∨
      page.header.minTimestampMS ≠ first.minTimestampMS ∨ page.header.maxTimestampMS ≠ last.maxTimestampMS)
    (invalidf "leaf page bounds do not match first and last entries")
  failIf (page.header.writerEpoch < last.writerEpoch)
    (invalidf s!"page writer_epoch={page.header.writerEpoch} is below last leaf epoch={last.writerEpoch}")

/-- Go's zero `IndexEntry{}`. -/
def IndexEntry.zero : IndexEntry := ⟨0, 0, 0, 0, 0, 0, 0, .zero 16, 0⟩

/-- The entry loop of `validateIndexPage` from entry `i` on; the result is the
segment count. -/
def validateIndexEntries (header : PageHeader) :
    Nat → Option IndexEntry → UInt64 → List IndexEntry → Except Err UInt64
  | _, _, segmentCount, [] => pure segmentCount
  | i, previous, segmentCount, entry :: rest => do
    restate (validateIndexEntry entry) (fun e => invalidf s!"index entry {i}: {e.text}")
    failIf (entry.level + 1 ≠ header.level)
      (invalidf s!"index entry {i} level={entry.level}, want {header.level - 1}")
    failIf (entry.generation > header.generation)
      (invalidf s!"index entry {i} generation={entry.generation} exceeds page generation={header.generation}")
    failIf (maxUint64 - segmentCount < entry.segmentCount) (invalidf "index segment_count sum overflows")
    match previous with
    | none => pure ()
    | some previous => do
      failIf (previous.seqHi = maxRecordLSN ∨ entry.seqLo ≠ previous.seqHi + 1)
        (invalidf s!"index entries {i - 1} and {i} are not contiguous")
      failIf (entry.minTimestampMS < previous.maxTimestampMS)
        (invalidf s!"index timestamps decrease between entries {i - 1} and {i}")
    validateIndexEntries header (i + 1) (some entry) (segmentCount + entry.segmentCount) rest

def validateIndexPage (page : IndexPage) : Except Err Unit := do
  validateCommonPageHeader page.header
  failIf (page.header.level = 0 ∨ page.header.level.toNat > maxIndexLevel)
    (invalidf s!"index page level={page.header.level} outside [1,{maxIndexLevel}]")
  failIf (page.header.entrySize.toNat ≠ indexEntrySize)
    (invalidf s!"index page entry_size={page.header.entrySize}, want {indexEntrySize}")
  failIf (page.entries.length = 0 ∨ page.entries.length > maxIndexEntries)
    (invalidf s!"index page entry count={page.entries.length} outside [1,{maxIndexEntries}]")
  failIf (page.header.entryCount ≠ UInt32.ofNat page.entries.length)
    (invalidf s!"index header entry_count={page.header.entryCount}, actual={page.entries.length}")
  let segmentCount ← validateIndexEntries page.header 0 none 0 page.entries
  failIf (page.header.segmentCount ≠ segmentCount)
    (invalidf s!"index header segment_count={page.header.segmentCount}, computed={segmentCount}")
  let first := page.entries.headD .zero
  let last := page.entries.getLastD .zero
  failIf (page.header.seqLo ≠ first.seqLo ∨ page.header.seqHi ≠ last.seqHi ∨
      page.header.minTimestampMS ≠ first.minTimestampMS ∨ page.header.maxTimestampMS ≠ last.maxTimestampMS)
    (invalidf "index page bounds do not match first and last entries")

/-! ## The head -/

structure RootRange where
  seqLo : UInt64
  seqHi : UInt64
  minTS : Int64
  maxTS : Int64
  segments : UInt64
deriving DecidableEq

def RootRange.zero : RootRange := ⟨0, 0, 0, 0, 0⟩

def IndexEntry.root (e : IndexEntry) : RootRange :=
  ⟨e.seqLo, e.seqHi, e.minTimestampMS, e.maxTimestampMS, e.segmentCount⟩

def LeafEntry.root (e : LeafEntry) : RootRange := ⟨e.baseLSN, e.lastLSN, e.minTimestampMS, e.maxTimestampMS, 1⟩

/-- Sections from the highest level down, then the open leaf: oldest history
first. -/
def Head.rootRanges (head : Head) : List RootRange :=
  head.sections.reverse.flatMap (fun s => s.entries.map IndexEntry.root) ++ head.active.map LeafEntry.root

/-- The entries of one open section. -/
def validateSectionEntries (header : HeadHeader) (section_ : OpenIndexSection) :
    Nat → List IndexEntry → Except Err Unit
  | _, [] => pure ()
  | j, entry :: rest => do
    restate (validateIndexEntry entry)
      (fun e => invalidf s!"head section level={section_.level} entry={j}: {e.text}")
    failIf (entry.level + 1 ≠ section_.level)
      (invalidf s!"head section level={section_.level} entry={j} child level={entry.level}")
    failIf (entry.generation > header.generation)
      (invalidf s!"head section level={section_.level} entry={j} generation={entry.generation} exceeds head generation={header.generation}")
    validateSectionEntries header section_ (j + 1) rest

def validateSections (header : HeadHeader) : Nat → List OpenIndexSection → Except Err Unit
  | _, [] => pure ()
  | i, section_ :: rest => do
    let wantLevel := UInt8.ofNat (i + 1)
    failIf (section_.level ≠ wantLevel)
      (invalidf s!"head section {i} level={section_.level}, want {wantLevel}")
    failIf (section_.entries.length ≥ header.indexLimit.toNat)
      (invalidf s!"head section level={section_.level} entry count={section_.entries.length} reaches limit={header.indexLimit}")
    validateSectionEntries header section_ 0 section_.entries
    validateSections header (i + 1) rest

/-- The open leaf. -/
def validateActive (header : HeadHeader) : Nat → Option LeafEntry → List LeafEntry → Except Err Unit
  | _, _, [] => pure ()
  | i, previous, entry :: rest => do
    restate (validateLeafEntry entry) (fun e => invalidf s!"head active leaf {i}: {e.text}")
    failIf (entry.writerEpoch > header.writerEpoch)
      (invalidf s!"head active leaf {i} writer_epoch={entry.writerEpoch} exceeds head writer_epoch={header.writerEpoch}")
    match previous with
    | none => pure ()
    | some previous =>
      failIf (entry.writerEpoch < previous.writerEpoch)
        (invalidf s!"head active writer epochs decrease between entries {i - 1} and {i}")
    validateActive header (i + 1) (some entry) rest

/-- The root loop of `validateHead`; the result is the reachable segment count. -/
def validateRoots (oldestLSN : UInt64) :
    Nat → Option RootRange → UInt64 → List RootRange → Except Err UInt64
  | _, _, segmentCount, [] => pure segmentCount
  | i, previous, segmentCount, root :: rest => do
    failIf (maxUint64 - segmentCount < root.segments) (invalidf "head root segment_count sum overflows")
    match previous with
    | none =>
      failIf (root.seqLo ≠ oldestLSN)
        (invalidf s!"first root seq_lo={root.seqLo} differs from oldest_lsn={oldestLSN}")
    | some previous => do
      failIf (previous.seqHi = maxRecordLSN ∨ root.seqLo ≠ previous.seqHi + 1)
        (invalidf s!"head roots {i - 1} and {i} are not contiguous")
      failIf (root.minTS < previous.maxTS)
        (invalidf s!"head timestamps decrease between roots {i - 1} and {i}")
    validateRoots oldestLSN (i + 1) (some root) (segmentCount + root.segments) rest

/-- The part of `validateHead` before the sections. -/
def validateHeadHeader (head : Head) : Except Err Unit := do
  let header := head.header
  failIf (header.flags &&& ~~~flagHasLastSegment ≠ 0)
    (invalidf s!"head flags=0x{hexNat header.flags.toNat} contain unknown bits")
  restate header.hashAlgo.validate (fun e => invalidf s!"head hash algorithm: {e.text}")
  failIf (header.segmentLayoutVersion ≠ segmentLayoutV1)
    (.of .unsupportedLayout s!"{header.segmentLayoutVersion}")
  failIf (header.leafLimit = 0 ∨ header.leafLimit.toNat > maxLeafEntries)
    (invalidf s!"head leaf_limit={header.leafLimit} outside [1,{maxLeafEntries}]")
  failIf (header.indexLimit < 2 ∨ header.indexLimit.toNat > maxIndexEntries)
    (invalidf s!"head index_limit={header.indexLimit} outside [2,{maxIndexEntries}]")
  failIf (head.active.length ≥ header.leafLimit.toNat ∨ header.activeCount ≠ UInt32.ofNat head.active.length)
    (invalidf s!"head active_count={header.activeCount} actual={head.active.length} limit={header.leafLimit}")
  failIf (head.sections.length > maxOpenIndexLevel ∨ header.levelCount ≠ UInt32.ofNat head.sections.length)
    (invalidf s!"head level_count={header.levelCount} actual={head.sections.length} maximum={maxOpenIndexLevel}")
  failIf (header.nextLSN > reservedLSN ∨ header.oldestLSN > header.nextLSN ∨
      header.appliedRetentionLSN > header.nextLSN)
    (invalidf s!"head LSN state next={header.nextLSN} oldest={header.oldestLSN} retention={header.appliedRetentionLSN}")
  failIf (header.appliedRetentionVersion = 0 ∧ header.appliedRetentionLSN ≠ 0)
    (invalidf s!"head has applied_retention_lsn={header.appliedRetentionLSN} without a retention version")
  failIf (decide (header.writerEpoch = 0) ≠ isZero16 header.writerID)
    (invalidf "head writer epoch and writer ID zero states differ")
  failIf (header.reachableSegmentCount > header.segmentCount)
    (invalidf s!"head reachable_segment_count={header.reachableSegmentCount} exceeds segment_count={header.segmentCount}")
  failIf (isZero32 header.streamKey) (invalidf "head stream_key is zero")
  failIf (isZero32 header.dataRootKey) (invalidf "head data_root_key is zero")

/-- The part of `validateHead` after the sections and the open leaf. -/
def validateHistory (head : Head) : Except Err Unit := do
  let header := head.header
  let roots := head.rootRanges
  if !head.hasLastSegment then
    failIf (head.lastSegment ≠ .zero) (invalidf "head without last segment has non-zero last_segment bytes")
    failIf (header.oldestLSN ≠ header.nextLSN ∨ header.segmentCount ≠ 0 ∨ header.reachableSegmentCount ≠ 0 ∨
        head.active.length ≠ 0 ∨ roots.length ≠ 0)
      (invalidf "empty head has reachable history")
  else do
    restate (validateLeafEntry head.lastSegment) (fun e => invalidf s!"head last_segment: {e.text}")
    failIf (head.lastSegment.writerEpoch > header.writerEpoch)
      (invalidf s!"last_segment writer_epoch={head.lastSegment.writerEpoch} exceeds head writer_epoch={header.writerEpoch}")
    failIf (header.segmentCount = 0) (invalidf "head has last segment with zero segment_count")
    failIf (head.lastSegment.lastLSN = maxRecordLSN ∨ head.lastSegment.lastLSN + 1 ≠ header.nextLSN)
      (invalidf s!"last_segment last_lsn={head.lastSegment.lastLSN} does not precede next_lsn={header.nextLSN}")
    if roots.length = 0 then
      failIf (header.oldestLSN ≠ header.nextLSN ∨ header.reachableSegmentCount ≠ 0 ∨ head.active.length ≠ 0)
        (invalidf "head without reachable roots is not fully retained")
    else do
      let last := roots.getLastD .zero
      failIf (last.seqHi ≠ head.lastSegment.lastLSN)
        (invalidf s!"last root seq_hi={last.seqHi} differs from last_segment last_lsn={head.lastSegment.lastLSN}")
      failIf (head.active.length > 0 ∧ head.active.getLastD .zero ≠ head.lastSegment)
        (invalidf "rightmost active leaf differs from last_segment")
      let segmentCount ← validateRoots header.oldestLSN 0 none 0 roots
      failIf (last.seqHi = maxRecordLSN ∨ last.seqHi + 1 ≠ header.nextLSN)
        (invalidf s!"last root seq_hi={last.seqHi} does not precede next_lsn={header.nextLSN}")
      failIf (segmentCount ≠ header.reachableSegmentCount)
        (invalidf s!"head reachable_segment_count={header.reachableSegmentCount}, computed={segmentCount}")

def validateHead (head : Head) : Except Err Unit := do
  validateHeadHeader head
  validateSections head.header 0 head.sections
  validateActive head.header 0 none head.active
  validateHistory head

/-- `validateHashAlgo`. -/
def validateHashAlgo (algo : HashAlgo) : Except Err Unit :=
  restate algo.validate (fun e => .of .invalidObject e.text)

end ObjLog.Catformat
