import ObjLog.Catengine.Config
/-!
# The catalog tree, `catengine/tree.go`

A head keeps the newest segments in `active`. A full `active` is sealed into a
leaf page whose reference goes to section 1; a full section `n` is sealed into
an index page whose reference goes to section `n + 1`.
-/

namespace ObjLog.Catengine

open Lib Catformat Pmeta

variable [Hashes]

structure PageObject where
  key : String
  level : UInt8
  ref : IndexEntry
  body : Bytes
deriving DecidableEq

structure Mutation where
  head : Head
  headBody : Bytes
  pages : List PageObject
deriving DecidableEq

/-- The head `NewHead` builds. -/
def emptyHead (config : Config) (nextLSN : UInt64) : Head where
  header :=
    { flags := 0, partition := config.partition, hashAlgo := config.hashAlgo
      segmentLayoutVersion := segmentLayoutV1, leafLimit := config.leafLimit, indexLimit := config.indexLimit
      activeCount := 0, levelCount := 0, nextLSN := nextLSN, oldestLSN := nextLSN
      appliedRetentionLSN := 0, appliedRetentionVersion := 0, writerEpoch := 0, generation := 0
      segmentCount := 0, reachableSegmentCount := 0, writerID := .zero 16
      streamKey := config.streamKey, dataRootKey := config.dataRootKey }
  lastSegment := .zero
  active := []
  sections := []

def newHead (config : Config) (nextLSN : UInt64) : Except Err (Head × Bytes) := do
  failIf (nextLSN = reservedLSN) (.of .invalidRequest "next_lsn exhausted")
  let head := emptyHead config nextLSN
  let body ← marshalHead head
  pure (head, body)

def takeover (config : Config) (head : Head) (writerID : Arr 16) : Except Err Mutation := do
  failIf (writerID = .zero 16) (.of .invalidRequest "empty writer_id")
  validateConfigHead config head
  failIf (head.header.writerEpoch = maxUint64) (.of .fenceExhausted s!"partition={config.partition}")
  failIf (head.header.generation = maxUint64) (.of .generationExhausted s!"partition={config.partition}")
  let next := { head with header := { head.header with
    writerEpoch := head.header.writerEpoch + 1
    generation := head.header.generation + 1
    writerID := writerID } }
  let body ← marshalHead next
  pure ⟨next, body, []⟩

/-! ## Sealing -/

/-- The header `sealLeaf` gives a page. -/
def leafHeader (config : Config) (generation writerEpoch : UInt64) (entries : List LeafEntry)
    (first last : LeafEntry) : PageHeader where
  flags := 0
  partition := config.partition
  level := 0
  hashAlgo := config.hashAlgo
  entryCount := UInt32.ofNat entries.length
  entrySize := UInt32.ofNat leafEntrySize
  seqLo := first.baseLSN
  seqHi := last.lastLSN
  minTimestampMS := first.minTimestampMS
  maxTimestampMS := last.maxTimestampMS
  generation := generation
  writerEpoch := writerEpoch
  streamKey := config.streamKey
  segmentCount := UInt64.ofNat entries.length

/-- The header `sealIndex` gives a page. -/
def indexHeader (config : Config) (generation writerEpoch : UInt64) (level : UInt8) (entries : List IndexEntry)
    (first last : IndexEntry) (segmentCount : UInt64) : PageHeader where
  flags := 0
  partition := config.partition
  level := level
  hashAlgo := config.hashAlgo
  entryCount := UInt32.ofNat entries.length
  entrySize := UInt32.ofNat indexEntrySize
  seqLo := first.seqLo
  seqHi := last.seqHi
  minTimestampMS := first.minTimestampMS
  maxTimestampMS := last.maxTimestampMS
  generation := generation
  writerEpoch := writerEpoch
  streamKey := config.streamKey
  segmentCount := segmentCount

/-- The reference to a page with this header and id. -/
def refOf (header : PageHeader) (id : Arr 16) : IndexEntry where
  level := header.level
  entryCount := header.entryCount
  seqLo := header.seqLo
  seqHi := header.seqHi
  minTimestampMS := header.minTimestampMS
  maxTimestampMS := header.maxTimestampMS
  generation := header.generation
  pageID := id
  segmentCount := header.segmentCount

/-- Every caller passes a non-empty slice; `entries[0]` of an empty one panics. -/
def sealLeaf (config : Config) (generation writerEpoch : UInt64) (entries : List LeafEntry) :
    Except Err (IndexEntry × PageObject) :=
  match entries.head?, entries.getLast? with
  | some first, some last => do
    let header := leafHeader config generation writerEpoch entries first last
    let (body, id) ← marshalLeafPage ⟨header, entries⟩
    let ref := refOf header id
    pure (ref, ⟨config.leafPagePath ref, 0, ref, body⟩)
  | _, _ => throw (.plain "panic: index out of range")

/-- The running total of `sealIndex`. -/
def addSegments (total : UInt64) (entry : IndexEntry) : Except Err UInt64 := do
  failIf (maxUint64 - total < entry.segmentCount) (.plain "catengine: segment count overflow")
  pure (total + entry.segmentCount)

def sealIndex (config : Config) (generation writerEpoch : UInt64) (level : UInt8) (entries : List IndexEntry) :
    Except Err (IndexEntry × PageObject) :=
  match entries.head?, entries.getLast? with
  | some first, some last => do
    let segmentCount ← entries.foldlM addSegments 0
    let header := indexHeader config generation writerEpoch level entries first last segmentCount
    let (body, id) ← marshalIndexPage ⟨header, entries⟩
    let ref := refOf header id
    pure (ref, ⟨config.indexPagePath ref, level, ref, body⟩)
  | _, _ => throw (.plain "panic: index out of range")

/-! ## Appending -/

/-- Add empty sections until there are `level` of them. -/
def growSections (level : Nat) (sections : List OpenIndexSection) : List OpenIndexSection :=
  sections ++ (List.range' (sections.length + 1) (level - sections.length)).map fun n => ⟨UInt8.ofNat n, []⟩

def setEntries (sections : List OpenIndexSection) (i : Nat) (entries : List IndexEntry) : List OpenIndexSection :=
  sections.modify i fun s => { s with entries := entries }

/-- `push`; the level grows by one in each call and is checked first, so
`fuel` above `maxOpenIndexLevel - level` is never used up. -/
def push (config : Config) (generation writerEpoch : UInt64) :
    Nat → Nat → IndexEntry → List OpenIndexSection → Except Err (List OpenIndexSection × List PageObject)
  | 0, level, _, _ => throw (.of .indexFull s!"index level={level}")
  | fuel + 1, level, ref, sections => do
    failIf (level = 0 ∨ level > maxOpenIndexLevel) (.of .indexFull s!"index level={level}")
    let sections := growSections level sections
    let entries := (sections[level - 1]?.map (·.entries)).getD []
    failIf (level = maxOpenIndexLevel ∧ entries.length + 1 ≥ config.indexLimit.toNat)
      (.of .indexFull s!"terminal open index level={level}")
    let entries := entries ++ [ref]
    if UInt32.ofNat entries.length < config.indexLimit then
      pure (setEntries sections (level - 1) entries, [])
    else do
      let (parent, object) ← sealIndex config generation writerEpoch (UInt8.ofNat level) entries
      let (sections, pages) ← push config generation writerEpoch fuel (level + 1) parent
        (setEntries sections (level - 1) [])
      pure (sections, object :: pages)

def pushFuel : Nat := maxOpenIndexLevel + 1

/-- What `Append` checks before it builds the next head. -/
def checkAppend (config : Config) (head : Head) (segment : SegmentRef) : Except Err LeafEntry := do
  validateConfigHead config head
  failIf (head.header.generation = maxUint64) (.of .generationExhausted s!"partition={config.partition}")
  let entry ← config.leafEntry segment
  failIf (head.header.writerEpoch = 0 ∨ entry.writerEpoch ≠ head.header.writerEpoch)
    (.of .staleWriter "segment fence does not match head")
  failIf (entry.writerTag ≠ head.header.writerID)
    (.of .invalidRequest "segment writer_tag does not match writer_id")
  failIf (entry.baseLSN ≠ head.header.nextLSN)
    (.of .conflict s!"segment base_lsn={entry.baseLSN} next_lsn={head.header.nextLSN}")
  failIf (head.hasLastSegment ∧ entry.minTimestampMS < head.lastSegment.maxTimestampMS)
    (.of .timestampOrder
      s!"segment min_ts={entry.minTimestampMS} previous max_ts={head.lastSegment.maxTimestampMS}")
  pure entry

/-- The header fields `Append` sets before it places the entry. -/
def appendHeader (head : Head) (entry : LeafEntry) : HeadHeader :=
  { head.header with
    generation := head.header.generation + 1
    nextLSN := entry.lastLSN + 1
    segmentCount := head.header.segmentCount + 1
    reachableSegmentCount := head.header.reachableSegmentCount + 1
    oldestLSN := if head.hasLastSegment then head.header.oldestLSN else entry.baseLSN
    flags := if head.hasLastSegment then head.header.flags else head.header.flags ||| flagHasLastSegment }

/-- Where the entry goes: the new active list, the sections and the sealed pages. -/
def place (config : Config) (header : HeadHeader) (active : List LeafEntry) (sections : List OpenIndexSection) :
    Except Err (List LeafEntry × List OpenIndexSection × List PageObject) :=
  if UInt32.ofNat active.length = config.leafLimit then do
    let (ref, object) ← sealLeaf config header.generation header.writerEpoch active
    let (sections, pages) ← push config header.generation header.writerEpoch pushFuel 1 ref sections
    pure ([], sections, object :: pages)
  else pure (active, sections, [])

def append (config : Config) (head : Head) (segment : SegmentRef) : Except Err Mutation := do
  let entry ← checkAppend config head segment
  let header := appendHeader head entry
  let (active, sections, pages) ← place config header (head.active ++ [entry]) head.sections
  let next : Head :=
    { header := { header with
        activeCount := UInt32.ofNat active.length
        levelCount := UInt32.ofNat sections.length }
      lastSegment := entry
      active := active
      sections := sections }
  let body ← marshalHead next
  pure ⟨next, body, pages⟩

end ObjLog.Catengine
