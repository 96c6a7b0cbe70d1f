import ObjLog.Lib.Search
import ObjLog.Blobstore
import ObjLog.Catengine.Tree
/-!
# Reading a head, `catengine/reader.go`

A descent follows references from the head's roots down to leaf pages. Each
recursive function takes the level of its reference as `depth`: a loaded index
page lists pages one level down, so the depth is used up at the leaves.
-/

namespace ObjLog.Catengine

open Lib Catformat Pmeta Blobstore

variable [Hashes]

structure PageTarget where
  key : String
  level : UInt8
  seqLo : UInt64
  seqHi : UInt64
deriving DecidableEq

structure PagePathPage where
  paths : List String
  nextSeqLo : UInt64
  hasMore : Bool
deriving DecidableEq

/-! ## Loading pages -/

def matchesPageRef (header : PageHeader) (ref : IndexEntry) (config : Config) : Bool :=
  header.partition = config.partition ∧ header.streamKey = config.streamKey ∧ header.level = ref.level ∧
    header.entryCount = ref.entryCount ∧ header.seqLo = ref.seqLo ∧ header.seqHi = ref.seqHi ∧
    header.minTimestampMS = ref.minTimestampMS ∧ header.maxTimestampMS = ref.maxTimestampMS ∧
    header.generation = ref.generation ∧ header.segmentCount = ref.segmentCount

/-- The checks of `loadLeaf` on the body it got. -/
def checkLeaf (config : Config) (ref : IndexEntry) (maxWriterEpoch : UInt64) (body : Bytes) : Except Err LeafPage := do
  let key := config.leafPagePath ref
  let (page, id) ← restate (parseLeafPage body) (.ofWithin .corruptCatalog s!"parse leaf {key.quote}")
  failIf (id ≠ ref.pageID ∨ page.header.writerEpoch > maxWriterEpoch ∨ ¬ matchesPageRef page.header ref config)
    (.of .corruptCatalog s!"leaf {key.quote} does not match its reference")
  pure page

/-- The checks of `loadIndex` on the body it got. -/
def checkIndex (config : Config) (ref : IndexEntry) (maxWriterEpoch : UInt64) (body : Bytes) : Except Err IndexPage := do
  let key := config.indexPagePath ref
  let (page, id) ← restate (parseIndexPage body) (.ofWithin .corruptCatalog s!"parse index {key.quote}")
  failIf (id ≠ ref.pageID ∨ page.header.writerEpoch > maxWriterEpoch ∨ ¬ matchesPageRef page.header ref config)
    (.of .corruptCatalog s!"index {key.quote} does not match its reference")
  pure page

/-- `GetPage` with the reader's wrapping of its error. -/
def getPage (kind key : String) : M Bytes := do
  let object ← ExceptT.adapt (Err.within s!"catengine: get {kind} {key.quote}") (Blobstore.get key)
  pure object.body

def loadLeaf (config : Config) (ref : IndexEntry) (maxWriterEpoch : UInt64) : M LeafPage := do
  let body ← getPage "leaf" (config.leafPagePath ref)
  liftM (checkLeaf config ref maxWriterEpoch body)

def loadIndex (config : Config) (ref : IndexEntry) (maxWriterEpoch : UInt64) : M IndexPage := do
  let body ← getPage "index" (config.indexPagePath ref)
  liftM (checkIndex config ref maxWriterEpoch body)

/-! ## Roots -/

inductive HeadRoot where
  | ref (r : IndexEntry)
  | leaf (e : LeafEntry)
deriving DecidableEq

namespace HeadRoot

def seqLo : HeadRoot → UInt64
  | ref r => r.seqLo
  | leaf e => e.baseLSN

def seqHi : HeadRoot → UInt64
  | ref r => r.seqHi
  | leaf e => e.lastLSN

def maxTimestamp : HeadRoot → Int64
  | ref r => r.maxTimestampMS
  | leaf e => e.maxTimestampMS

end HeadRoot

/-- Sections from the highest level down, then the active entries. -/
def headRoots (head : Head) : List HeadRoot :=
  (head.sections.reverse.flatMap fun s => s.entries.map .ref) ++ head.active.map .leaf

def maxPageLevel (head : Head) : UInt8 :=
  (head.sections.flatMap (·.entries)).foldl (fun m ref => if ref.level > m then ref.level else m) 0

/-- A reference whose level is not below its parent's; page validation rejects
such a page, so no descent gets here. -/
def tooDeep {α : Type} : M α := throw (.plain "unreachable: child level not below its parent")

/-! ## Lookups -/

def findInPage (config : Config) (lsn : UInt64) (depth : Nat) (ref : IndexEntry) (maxWriterEpoch : UInt64) :
    M (Option SegmentRef) :=
  if ref.level = 0 then do
    let page ← loadLeaf config ref maxWriterEpoch
    match page.entries[searchList page.entries fun e => e.lastLSN ≥ lsn]? with
    | none => pure none
    | some e => pure (if e.baseLSN > lsn then none else some (config.segmentRef e))
  else match depth with
    | 0 => tooDeep
    | depth + 1 => do
      let page ← loadIndex config ref maxWriterEpoch
      match page.entries[searchList page.entries fun e => e.seqHi ≥ lsn]? with
      | none => pure none
      | some e => if e.seqLo > lsn then pure none else findInPage config lsn depth e page.header.writerEpoch

def findSegment (config : Config) (head : Head) (lsn : UInt64) : M (Option SegmentRef) := do
  checkCtx
  liftM (validateConfigHead config head)
  if !head.hasLastSegment ∨ lsn < head.header.oldestLSN ∨ lsn ≥ head.header.nextLSN then pure none
  else
    let roots := headRoots head
    match roots[searchList roots fun r => r.seqHi ≥ lsn]? with
    | none => pure none
    | some r =>
      if r.seqLo > lsn then pure none
      else match r with
        | .leaf e => pure (some (config.segmentRef e))
        | .ref r => findInPage config lsn r.level.toNat r head.header.writerEpoch

def findTimestampInPage (config : Config) (timestampMS : Int64) (depth : Nat) (ref : IndexEntry)
    (maxWriterEpoch : UInt64) : M (Option SegmentRef) :=
  if ref.level = 0 then do
    let page ← loadLeaf config ref maxWriterEpoch
    pure (page.entries[searchList page.entries fun e => e.maxTimestampMS ≥ timestampMS]?.map config.segmentRef)
  else match depth with
    | 0 => tooDeep
    | depth + 1 => do
      let page ← loadIndex config ref maxWriterEpoch
      match page.entries[searchList page.entries fun e => e.maxTimestampMS ≥ timestampMS]? with
      | none => pure none
      | some e => findTimestampInPage config timestampMS depth e page.header.writerEpoch

def lookupTimestamp (config : Config) (head : Head) (timestampMS : Int64) : M (Option SegmentRef) := do
  checkCtx
  liftM (validateConfigHead config head)
  if !head.hasLastSegment ∨ head.header.oldestLSN = head.header.nextLSN ∨
      timestampMS > head.lastSegment.maxTimestampMS then pure none
  else
    let roots := headRoots head
    match roots[searchList roots fun r => r.maxTimestamp ≥ timestampMS]? with
    | none => pure none
    | some (.leaf e) => pure (some (config.segmentRef e))
    | some (.ref r) => findTimestampInPage config timestampMS r.level.toNat r head.header.writerEpoch

/-! ## Listing -/

structure PageCollector where
  fromLSN : UInt64
  limit : Nat
  segments : List SegmentRef
  nextLSN : UInt64
  hasMore : Bool

def PageCollector.done (c : PageCollector) : Bool := c.hasMore

def PageCollector.add (config : Config) (c : PageCollector) (entry : LeafEntry) : PageCollector :=
  if c.done ∨ entry.lastLSN < c.fromLSN then c
  else if c.segments.length = c.limit then { c with hasMore := true, nextLSN := entry.baseLSN }
  else { c with segments := c.segments ++ [config.segmentRef entry] }

structure PagePathCollector where
  fromSeqLo : UInt64
  limit : Nat
  paths : List String
  nextSeqLo : UInt64
  hasMore : Bool

def PagePathCollector.done (c : PagePathCollector) : Bool := c.hasMore

def PagePathCollector.add (config : Config) (c : PagePathCollector) (ref : IndexEntry) : PagePathCollector :=
  if c.done ∨ ref.seqHi < c.fromSeqLo then c
  else if c.paths.length = c.limit then { c with nextSeqLo := ref.seqLo, hasMore := true }
  else { c with paths := c.paths ++ [config.pagePath ref] }

/-- A loop that leaves as soon as `done`. -/
def untilDone {m : Type → Type} [Monad m] {α σ : Type} (done : σ → Bool) (body : σ → α → m σ) : List α → σ → m σ
  | [], s => pure s
  | a :: as, s => if done s then pure s else body s a >>= untilDone done body as

def collectPage (config : Config) (depth : Nat) (ref : IndexEntry) (maxWriterEpoch : UInt64) (c : PageCollector) :
    M PageCollector :=
  if c.done ∨ ref.seqHi < c.fromLSN then pure c
  else if ref.level = 0 then do
    let page ← loadLeaf config ref maxWriterEpoch
    let start := searchList page.entries fun e => e.lastLSN ≥ c.fromLSN
    untilDone PageCollector.done (fun c e => pure (c.add config e)) (page.entries.drop start) c
  else match depth with
    | 0 => tooDeep
    | depth + 1 => do
      let page ← loadIndex config ref maxWriterEpoch
      let start := searchList page.entries fun e => e.seqHi ≥ c.fromLSN
      untilDone PageCollector.done (fun c e => collectPage config depth e page.header.writerEpoch c)
        (page.entries.drop start) c

/-- The engine's own rule for a limit; `limit` is Go's `int`. -/
def pageLimit (limit : Int) : Nat :=
  if limit ≤ 0 ∨ limit > maxSegmentPageLimit then defaultSegmentPageLimit else limit.toNat

/-- One turn of the loop of `ListSegments`. -/
def collectRoot (config : Config) (head : Head) (fromLSN : UInt64) (c : PageCollector) (root : HeadRoot) :
    M PageCollector :=
  if root.seqHi < fromLSN then pure c
  else match root with
    | .leaf e => pure (c.add config e)
    | .ref r => collectPage config r.level.toNat r head.header.writerEpoch c

def listSegments (config : Config) (head : Head) (fromLSN : UInt64) (limit : Int) : M SegmentPage := do
  checkCtx
  liftM (validateConfigHead config head)
  if !head.hasLastSegment ∨ fromLSN ≥ head.header.nextLSN then pure ⟨[], 0, false⟩
  else
    let c ← untilDone PageCollector.done (collectRoot config head fromLSN) (headRoots head)
      ⟨fromLSN, pageLimit limit, [], 0, false⟩
    pure ⟨c.segments, c.nextLSN, c.hasMore⟩

def collectPagePath (config : Config) (level : UInt8) (depth : Nat) (ref : IndexEntry) (maxWriterEpoch : UInt64)
    (c : PagePathCollector) : M PagePathCollector :=
  if c.done ∨ ref.seqHi < c.fromSeqLo ∨ ref.level < level then pure c
  else if ref.level = level then pure (c.add config ref)
  else match depth with
    | 0 => tooDeep
    | depth + 1 => do
      let page ← loadIndex config ref maxWriterEpoch
      let start := searchList page.entries fun e => e.seqHi ≥ c.fromSeqLo
      untilDone PagePathCollector.done (fun c e => collectPagePath config level depth e page.header.writerEpoch c)
        (page.entries.drop start) c

/-- One turn of the loop of `ListPagePaths`. -/
def collectRootPath (config : Config) (head : Head) (level : UInt8) (c : PagePathCollector) (root : HeadRoot) :
    M PagePathCollector :=
  match root with
  | .leaf _ => pure c
  | .ref r => collectPagePath config level r.level.toNat r head.header.writerEpoch c

def listPagePaths (config : Config) (head : Head) (level : UInt8) (fromSeqLo : UInt64) (limit : Int) :
    M PagePathPage := do
  checkCtx
  liftM (failIf (level.toNat > maxIndexLevel)
    (.plain s!"catengine: page level={level} exceeds maximum={maxIndexLevel}"))
  liftM (validateConfigHead config head)
  let c ← untilDone PagePathCollector.done (collectRootPath config head level) (headRoots head)
    ⟨fromSeqLo, pageLimit limit, [], 0, false⟩
  pure ⟨c.paths, c.nextSeqLo, c.hasMore⟩

/-! ## Reachability of one page -/

/-- The first element for which `body` answers true ends the loop. -/
def anyReachable {m : Type → Type} [Monad m] {α : Type} (body : α → m Bool) : List α → m Bool
  | [] => pure false
  | a :: as => do
    let reachable ← body a
    if reachable then pure true else anyReachable body as

def pageReachable (config : Config) (target : PageTarget) (depth : Nat) (ref : IndexEntry) (maxWriterEpoch : UInt64) :
    M Bool :=
  if config.pagePath ref = target.key then pure true
  else if target.seqHi < ref.seqLo ∨ target.seqLo > ref.seqHi ∨ target.level ≥ ref.level ∨ ref.level = 0 then
    pure false
  else match depth with
    | 0 => tooDeep
    | depth + 1 => do
      let page ← loadIndex config ref maxWriterEpoch
      anyReachable (fun child =>
        if target.seqHi < child.seqLo ∨ target.seqLo > child.seqHi then pure false
        else pageReachable config target depth child page.header.writerEpoch) page.entries

def isPageReachable (config : Config) (head : Head) (target : PageTarget) : M Bool := do
  checkCtx
  liftM (failIf (target.key = "" ∨ target.level.toNat > maxIndexLevel ∨ target.seqHi < target.seqLo)
    (.plain "catengine: invalid page reachability target"))
  liftM (validateConfigHead config head)
  anyReachable (fun root =>
    match root with
    | .leaf _ => pure false
    | .ref r => pageReachable config target r.level.toNat r head.header.writerEpoch) (headRoots head)

end ObjLog.Catengine
