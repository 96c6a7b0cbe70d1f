import ObjLog.Catengine.Reader
/-!
# Retention, `catengine/retention.go`

Retention drops whole segments from the front of the history. The sealed pages
on the path to the new first segment are written again without what was cut.
-/

namespace ObjLog.Catengine

open Lib Catformat Pmeta Blobstore

variable [Hashes]

/-- `trimPageRef`: the reference to the page cut at `effective`, and the pages
written for it, children first. -/
def trimPageRef (config : Config) (effective generation writerEpoch : UInt64) (depth : Nat) (ref : IndexEntry) :
    M (IndexEntry × List PageObject) :=
  if effective ≤ ref.seqLo then pure (ref, [])
  else if effective > ref.seqHi then
    throw (.plain s!"catengine: retention boundary={effective} beyond page [{ref.seqLo},{ref.seqHi}]")
  else if ref.level = 0 then do
    let page ← loadLeaf config ref writerEpoch
    let kept := page.entries.drop (searchList page.entries fun e => e.lastLSN ≥ effective)
    liftM (failIf (kept.head?.map (·.baseLSN) ≠ some effective)
      (.plain s!"catengine: leaf does not start retained history at {effective}"))
    let (trimmed, object) ← liftM (sealLeaf config generation writerEpoch kept)
    pure (trimmed, [object])
  else match depth with
    | 0 => tooDeep
    | depth + 1 => do
      let page ← loadIndex config ref writerEpoch
      match page.entries.drop (searchList page.entries fun e => e.seqHi ≥ effective) with
      | [] => throw (.plain s!"catengine: index does not contain retained LSN={effective}")
      | first :: rest => do
        let (first, objects) ←
          (if first.seqLo < effective then trimPageRef config effective generation writerEpoch depth first
          else pure (first, []))
        liftM (failIf (first.seqLo ≠ effective)
          (.plain s!"catengine: index retained seq_lo={first.seqLo}, want {effective}"))
        let (trimmed, object) ← liftM (sealIndex config generation writerEpoch ref.level (first :: rest))
        pure (trimmed, objects ++ [object])

/-- One turn of `trimHead`'s loop over the sections. -/
def trimSection (config : Config) (effective generation writerEpoch : UInt64) (s : OpenIndexSection) :
    M (OpenIndexSection × List PageObject) :=
  match s.entries.drop (searchList s.entries fun e => e.seqHi ≥ effective) with
  | [] => pure ({ s with entries := [] }, [])
  | first :: rest =>
    if first.seqLo < effective then do
      let (first, objects) ← trimPageRef config effective generation writerEpoch first.level.toNat first
      pure ({ s with entries := first :: rest }, objects)
    else pure ({ s with entries := first :: rest }, [])

def trimSections (config : Config) (effective generation writerEpoch : UInt64) :
    List OpenIndexSection → M (List OpenIndexSection × List PageObject)
  | [] => pure ([], [])
  | s :: ss => do
    let (s, objects) ← trimSection config effective generation writerEpoch s
    let (ss, more) ← trimSections config effective generation writerEpoch ss
    pure (s :: ss, objects ++ more)

/-- Empty sections at the end go; one below a non-empty section stays. -/
def dropEmptyTail (sections : List OpenIndexSection) : List OpenIndexSection :=
  (sections.reverse.dropWhile fun s => s.entries.isEmpty).reverse

def trimHead (config : Config) (effective : UInt64) (head : Head) : M (Head × List PageObject) := do
  let (sections, pages) ← trimSections config effective head.header.generation head.header.writerEpoch head.sections
  let next := { head with
    sections := dropEmptyTail sections
    active := head.active.drop (searchList head.active fun e => e.lastLSN ≥ effective) }
  liftM (failIf ((headRoots next).head?.map (·.seqLo) ≠ some effective)
    (.plain s!"catengine: retained roots do not start at {effective}"))
  pure (next, pages)

/-- The running total of `reachableSegmentCount`, which panics on overflow. -/
def addReachable (count : UInt64) (ref : IndexEntry) : Except Err UInt64 := do
  failIf (maxUint64 - count < ref.segmentCount) (.plain "panic: catengine: validated segment count overflow")
  pure (count + ref.segmentCount)

def reachableSegmentCount (head : Head) : Except Err UInt64 := do
  let count ← (head.sections.flatMap (·.entries)).foldlM addReachable 0
  failIf (maxUint64 - count < UInt64.ofNat head.active.length)
    (.plain "panic: catengine: validated active segment count overflow")
  pure (count + UInt64.ofNat head.active.length)

/-- The boundary a policy asks for, at most the end of the history. -/
def retentionTarget (head : Head) (beforeLSN : UInt64) : UInt64 :=
  if beforeLSN > head.header.nextLSN then head.header.nextLSN else beforeLSN

/-- The head `ApplyRetention` starts from: the policy is recorded, nothing is cut yet. -/
def retentionHead (head : Head) (target policyVersion : UInt64) : Head :=
  { head with header := { head.header with
    generation := head.header.generation + 1
    appliedRetentionLSN := target
    appliedRetentionVersion := policyVersion } }

/-- The counts `ApplyRetention` sets once the history is cut. -/
def recount (head : Head) (reachable : UInt64) : Head :=
  { head with header := { head.header with
    activeCount := UInt32.ofNat head.active.length
    levelCount := UInt32.ofNat head.sections.length
    reachableSegmentCount := reachable } }

/-- What is left of the history from `target` on, and the pages written for it. -/
def cutHistory (config : Config) (head next : Head) (target : UInt64) : M (Head × List PageObject) :=
  if target ≤ head.header.oldestLSN then pure (next, [])
  else if target ≥ head.header.nextLSN then
    pure ({ next with
      header := { next.header with oldestLSN := head.header.nextLSN, reachableSegmentCount := 0 }
      active := []
      sections := [] }, [])
  else do
    match ← findSegment config head target with
    | none => throw (.plain s!"catengine: retention target={target} is not in committed history")
    | some segment =>
      let effective := segment.baseLSN
      if effective > head.header.oldestLSN then do
        let (next, pages) ← trimHead config effective next
        pure ({ next with header := { next.header with oldestLSN := effective } }, pages)
      else pure (next, [])

def applyRetention (config : Config) (head : Head) (beforeLSN policyVersion : UInt64) : M Mutation := do
  checkCtx
  liftM (validateConfigHead config head)
  liftM (failIf (policyVersion = 0) (.of .invalidRequest "zero retention policy version"))
  if policyVersion = head.header.appliedRetentionVersion ∧ beforeLSN = head.header.appliedRetentionLSN then do
    let body ← liftM (marshalHead head)
    pure ⟨head, body, []⟩
  else do
    liftM (failIf (policyVersion ≤ head.header.appliedRetentionVersion) (.of .retentionRegression
      s!"policy_version={policyVersion} applied={head.header.appliedRetentionVersion}"))
    liftM (failIf (beforeLSN < head.header.appliedRetentionLSN) (.of .retentionRegression
      s!"before_lsn={beforeLSN} applied={head.header.appliedRetentionLSN}"))
    liftM (failIf (head.header.generation = maxUint64)
      (.of .generationExhausted s!"partition={config.partition}"))
    let target := retentionTarget head beforeLSN
    let (next, pages) ← cutHistory config head (retentionHead head target policyVersion) target
    let reachable ← liftM (reachableSegmentCount next)
    let next := recount next reachable
    let body ← liftM (marshalHead next)
    pure ⟨next, body, pages⟩

end ObjLog.Catengine
