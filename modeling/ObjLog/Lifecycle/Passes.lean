import ObjLog.Lifecycle.Deletes
/-!
# The passes, `internal/lifecycle/segments.go`, `pages.go`, `staging.go`, `scrub.go` and `reclaimer.go`

Each pass is a loop over pages of a listing, with the turns left as an argument. A
turn that goes on has listed an object or goes on to the next level, so the turns of a
run are enough unless the level wraps around. It does at a `MaxPageLevel` of 255; the
catalog stays at 63, `catalogblob.MaxIndexLevel`. The levels of quarantined pages are
taken once each, in some order, as a Go map has none.
-/

namespace ObjLog.Lifecycle

open Lib Pmeta

variable {B : Type} [StateJSON B] [Hashes] (r : Reclaimer)

/-! ## Snapshots -/

def validateSnapshot (opts : Options) (snapshot : MaintenanceSnapshot) (partition : UInt32) : Except Err Unit := do
  failIf (snapshot.head.streamID ≠ opts.streamID)
    (.plain s!"lifecycle: head stream_id={snapshot.head.streamID.quote} want={opts.streamID.quote}")
  failIf (snapshot.head.partition ≠ partition)
    (.plain s!"lifecycle: head partition={snapshot.head.partition} want={partition}")
  failIf (snapshot.head.oldestLSN > snapshot.head.nextLSN)
    (.plain s!"lifecycle: invalid head oldest={snapshot.head.oldestLSN} next={snapshot.head.nextLSN}")

def loadSnapshot (partition : UInt32) : M B MaintenanceSnapshot := do
  let answer : Except Err MaintenanceSnapshot ← perform (.snapshot partition)
  let snapshot ← ofExcept answer
  ofExcept (validateSnapshot r.opts snapshot partition)
  return snapshot

def recheckFloor (partition : UInt32) (safeFloor : UInt64) : M B Unit := do
  let snapshot ← loadSnapshot r partition
  if snapshot.head.oldestLSN < safeFloor then
    throw (.plain s!"lifecycle: head retention regressed oldest={snapshot.head.oldestLSN} safe={safeFloor}")
  else return ()

/-! ## Checkpoints -/

/-- A key in the state that a pass goes on after. -/
structure AfterKey where
  read : StateFile → String
  write : String → StateFile → StateFile

def segmentAfterKey : AfterKey := ⟨StateFile.segmentAfterKey, fun key s => { s with segmentAfterKey := key }⟩
def pageAfterKey : AfterKey := ⟨StateFile.pageAfterKey, fun key s => { s with pageAfterKey := key }⟩
def stagingAfterKey : AfterKey := ⟨StateFile.stagingAfterKey, fun key s => { s with stagingAfterKey := key }⟩
def orphanSegmentAfterKey : AfterKey :=
  ⟨StateFile.orphanSegmentAfterKey, fun key s => { s with orphanSegmentAfterKey := key }⟩

/-- Save the key to go on after, unless it is there. -/
def checkpoint (after : AfterKey) (key : String) : M B Unit := do
  let state ← getState
  if r.opts.dryRun = true ∨ key = after.read state then return ()
  else do
    setState (after.write key)
    saveState r

/-- A pass whose deletes failed: `joinDeleteCheckpointError` of the error and that of the checkpoint. -/
def failDeletes {α : Type} (after : AfterKey) (key : String) (err : Err) : M B α := do
  match ← attempt (checkpoint r after key) with
  | .ok _ => throw err
  | .error checkpointErr => throw (.join (some err) (.within "lifecycle: save delete checkpoint" checkpointErr))

/-- The deletes of a page, after the check of the pass. -/
def deletePlanned (after : AfterKey) (plan : Plan) : M B Unit := do
  match ← executeDeletes r plan.candidates with
  | (_, none) => return ()
  | (key, some err) => failDeletes r after key err

/-- Unless the run is dry. -/
def unlessDry (x : M B Unit) : M B Unit := if r.opts.dryRun = true then return () else x

/-- The deletes of a page, if there are any, after another look at the floor. -/
def deleteBelowFloor (after : AfterKey) (partition : UInt32) (safeFloorLSN : UInt64) (plan : Plan) : M B Unit :=
  if plan.candidates = [] then return ()
  else do
    recheckFloor r partition safeFloorLSN
    deletePlanned r after plan

/-! ## Segments -/

def completeSegments : M B Unit := unlessDry r do
  setState fun s => { s with segmentReclaimedThroughLSN := s.safeFloorLSN, segmentAfterKey := "" }
  saveState r

def judgeSegment (partition : UInt32) (safeFloorLSN : UInt64) (object : ObjectInfo) : Judged :=
  match r.layout.parseSegmentKey r.opts.streamID partition object.key with
  | .error _ => .invalid
  | .ok parsed => if parsed.baseLSN ≥ safeFloorLSN then .stop else .candidate

def reclaimSegmentsFrom : Nat → String → M B Unit
  | 0, _ => return ()
  | turns + 1, afterKey => do
    let p ← getThe PassState
    if p.available r.opts = false then return ()
    else do
      let limit ← listLimit r
      if limit = 0 then return ()
      else do
        let page ← listObjects r (r.layout.segmentPrefix r.opts.streamID p.state.partition) afterKey limit
        if page.objects = [] then completeSegments r
        else do
          let plan ← planPage r (judgeSegment r p.state.partition p.state.safeFloorLSN) afterKey page.objects
          deleteBelowFloor r segmentAfterKey p.state.partition p.state.safeFloorLSN plan
          if plan.reachedEnd = true then completeSegments r
          else if plan.budgetStopped = true then checkpoint r segmentAfterKey plan.lastProcessed
          else if r.opts.dryRun = true then
            if page.hasMore = false then return () else reclaimSegmentsFrom turns plan.lastProcessed
          else do
            setState (segmentAfterKey.write plan.lastProcessed)
            if page.hasMore = false then completeSegments r
            else do
              saveState r
              reclaimSegmentsFrom turns plan.lastProcessed

def reclaimSegments (turns : Nat) : M B Unit := do
  let state ← getState
  reclaimSegmentsFrom r turns
    (if state.segmentAfterKey = "" then
      r.layout.segmentLowerBound r.opts.streamID state.partition state.segmentReclaimedThroughLSN
    else state.segmentAfterKey)

/-! ## Pages -/

def completePages : M B Unit := unlessDry r do
  setState fun s => { s with pageReclaimedThroughLSN := s.safeFloorLSN, pageLevel := 0, pageAfterKey := "" }
  saveState r

def advancePageLevel (level : UInt8) : M B Unit := unlessDry r do
  setState fun s => { s with pageLevel := level, pageAfterKey := "" }
  saveState r

def judgePage (partition : UInt32) (level : UInt8) (safeFloorLSN : UInt64) (object : ObjectInfo) : Judged :=
  match Blob.parsePagePath r.opts.catalogPrefix r.opts.streamID partition object.key with
  | .error _ => .invalid
  | .ok parsed =>
    if parsed.level ≠ level then .invalid else if parsed.seqHi ≥ safeFloorLSN then .stop else .candidate

def reclaimPagesFrom : Nat → UInt8 → String → M B Unit
  | 0, _, _ => return ()
  | turns + 1, level, afterKey => do
    let p ← getThe PassState
    if level > p.state.maxPageLevel ∨ p.available r.opts = false then return ()
    else do
      let afterKey := if afterKey = "" then Blob.pageEndLowerBound r.opts.catalogPrefix r.opts.streamID p.state.partition
        level p.state.pageReclaimedThroughLSN else afterKey
      let limit ← listLimit r
      if limit = 0 then return ()
      else do
        let page ← listObjects r (Blob.pageLevelPrefix r.opts.catalogPrefix r.opts.streamID p.state.partition level)
          afterKey limit
        if page.objects = [] then
          if level + 1 > p.state.maxPageLevel then completePages r
          else do
            advancePageLevel r (level + 1)
            reclaimPagesFrom turns (level + 1) ""
        else do
          let plan ← planPage r (judgePage r p.state.partition level p.state.safeFloorLSN) afterKey page.objects
          deleteBelowFloor r pageAfterKey p.state.partition p.state.safeFloorLSN plan
          if plan.budgetStopped = true then checkpoint r pageAfterKey plan.lastProcessed
          else if r.opts.dryRun = true then
            if plan.reachedEnd = true ∨ page.hasMore = false then reclaimPagesFrom turns (level + 1) ""
            else reclaimPagesFrom turns level plan.lastProcessed
          else if plan.reachedEnd = true ∨ page.hasMore = false then
            if level + 1 > p.state.maxPageLevel then completePages r
            else do
              advancePageLevel r (level + 1)
              reclaimPagesFrom turns (level + 1) ""
          else do
            setState (pageAfterKey.write plan.lastProcessed)
            saveState r
            reclaimPagesFrom turns level plan.lastProcessed

def reclaimPages (turns : Nat) : M B Unit := do
  let state ← getState
  reclaimPagesFrom r turns state.pageLevel state.pageAfterKey

/-! ## Staging -/

def completeStaging : M B Unit := unlessDry r do
  setState (stagingAfterKey.write "")
  saveState r

def judgeStaging (partition : UInt32) (writerEpoch : UInt64) (now : Int) (object : ObjectInfo) : Judged :=
  match r.layout.parseStagingKey r.opts.streamID partition object.key with
  | .error _ => .invalid
  | .ok parsed =>
    if parsed.writerEpoch ≥ writerEpoch ∨ oldEnough object.createdAt now r.opts.deleteDelay = false then .skip
    else .candidate

/-- Whether there is nothing to delete, or the writer of the snapshot has not gone back. -/
def recheckEpoch (partition : UInt32) (writerEpoch : UInt64) (plan : Plan) : M B Bool :=
  if plan.candidates = [] then return true
  else do
    let fresh ← loadSnapshot r partition
    return fresh.head.writerEpoch ≥ writerEpoch

def reclaimStagingFrom (writerEpoch : UInt64) (now : Int) : Nat → String → M B Unit
  | 0, _ => return ()
  | turns + 1, afterKey => do
    let p ← getThe PassState
    if p.available r.opts = false then return ()
    else do
      let limit ← listLimit r
      if limit = 0 then return ()
      else do
        let page ← listObjects r (r.layout.partitionStagingPrefix r.opts.streamID p.state.partition) afterKey limit
        if page.objects = [] then completeStaging r
        else do
          let plan ← planPage r (judgeStaging r p.state.partition writerEpoch now) afterKey page.objects
          let goOn ← recheckEpoch r p.state.partition writerEpoch plan
          if goOn = false then return ()
          else do
            deletePlanned r stagingAfterKey plan
            if plan.budgetStopped = true then checkpoint r stagingAfterKey plan.lastProcessed
            else if r.opts.dryRun = true then
              if page.hasMore = false then return () else reclaimStagingFrom writerEpoch now turns plan.lastProcessed
            else do
              setState (stagingAfterKey.write plan.lastProcessed)
              if page.hasMore = false then completeStaging r
              else do
                saveState r
                reclaimStagingFrom writerEpoch now turns plan.lastProcessed

/-- Staging starts over with each writer. -/
def renewStaging (writerEpoch : UInt64) : M B Unit := do
  let state ← getState
  if state.stagingEpoch ≠ writerEpoch then unlessDry r do
    setState fun s => { s with stagingEpoch := writerEpoch, stagingAfterKey := "" }
    saveState r
  else return ()

def reclaimStaging (snapshot : MaintenanceSnapshot) (turns : Nat) : M B Unit := do
  if snapshot.head.writerEpoch = 0 then return ()
  else do
    let state ← getState
    renewStaging r snapshot.head.writerEpoch
    let afterKey := if state.stagingEpoch ≠ snapshot.head.writerEpoch ∨ state.stagingAfterKey = "" then
      r.layout.partitionStagingPrefix r.opts.streamID state.partition else state.stagingAfterKey
    let now : Int ← now
    reclaimStagingFrom r snapshot.head.writerEpoch now turns afterKey

/-! ## What the catalog refers to -/

/-- The checks on the snapshot of another page of the catalog; `kind` is what is scrubbed. -/
def checkObserved (kind : String) (partition : UInt32) (observed : Option MaintenanceSnapshot)
    (snapshot : MaintenanceSnapshot) : Except Err MaintenanceSnapshot := do
  validateSnapshot r.opts snapshot partition
  match observed with
  | none => .ok snapshot
  | some observed => do
    failIf (snapshot.generation ≠ observed.generation) (.plain
      s!"lifecycle: catalog changed during {kind} scrub generation={observed.generation} current={snapshot.generation}")
    return observed

/-- The loop of `referencedSegmentsForObjectPage`. `next` goes up and ends above `throughLSN`, so the turns are enough. -/
def referencedFrom (partition : UInt32) (physicalKeys : List String) (throughLSN : UInt64) :
    Nat → UInt64 → Option MaintenanceSnapshot → List String → M B (MaintenanceSnapshot × List String)
  | 0, next, _, _ => throw (.plain s!"lifecycle: catalog segment pages end at {next}")
  | turns + 1, next, observed, referenced => do
    let answer : Except Err (MaintenanceSnapshot × SegmentPage) ← perform (.segments partition next)
    let (snapshot, page) ← ofExcept answer
    let observed ← ofExcept (checkObserved r "segment" partition observed snapshot)
    let found := (page.segments.takeWhile fun segment => segment.baseLSN ≤ throughLSN).filterMap fun segment =>
      if segment.uri ∈ physicalKeys then some segment.uri else none
    let referenced := referenced ++ found
    if page.hasMore = false ∨ page.nextLSN > throughLSN then return (observed, referenced)
    else if page.nextLSN ≤ next then throw (.plain
      s!"lifecycle: non-advancing catalog segment page next_lsn={page.nextLSN} from_lsn={next}")
    else referencedFrom partition physicalKeys throughLSN turns page.nextLSN (some observed) referenced

def referencedSegmentsForObjectPage (partition : UInt32) (objects : List Sink.SegmentObjectKey) :
    M B (MaintenanceSnapshot × List String) :=
  let lsns := objects.map Sink.SegmentObjectKey.baseLSN
  let fromLSN := lsns.foldl min (lsns.headD 0)
  let throughLSN := lsns.foldl max (lsns.headD 0)
  referencedFrom r partition (objects.map Sink.SegmentObjectKey.key) throughLSN (throughLSN.toNat - fromLSN.toNat + 1)
    fromLSN none []

/-- The snapshot stands where no object of the page has a segment key. -/
def referencedAmong (snapshot : MaintenanceSnapshot) (partition : UInt32) (objects : List Sink.SegmentObjectKey) :
    M B (MaintenanceSnapshot × List String) :=
  if objects = [] then return (snapshot, []) else referencedSegmentsForObjectPage r partition objects

/-- The loop of `reachablePagesForObjectPage`. -/
def reachableFrom (partition : UInt32) (level : UInt8) (physicalKeys : List String) (throughSeqLo : UInt64) :
    Nat → UInt64 → Option MaintenanceSnapshot → List String → M B (MaintenanceSnapshot × List String)
  | 0, next, _, _ => throw (.plain s!"lifecycle: catalog pages end at {next}")
  | turns + 1, next, observed, reachable => do
    let answer : Except Err (MaintenanceSnapshot × MaintenancePage) ← perform (.pages partition level next)
    let (snapshot, page) ← ofExcept answer
    let observed ← ofExcept (checkObserved r "page" partition observed snapshot)
    let reachable := reachable ++ page.paths.filter fun path => path ∈ physicalKeys
    if page.hasMore = false ∨ page.nextSeqLo > throughSeqLo then return (observed, reachable)
    else if page.nextSeqLo ≤ next then throw (.plain
      s!"lifecycle: non-advancing catalog page next_seq_lo={page.nextSeqLo} from_seq_lo={next}")
    else reachableFrom partition level physicalKeys throughSeqLo turns page.nextSeqLo (some observed) reachable

def reachablePagesForObjectPage (partition : UInt32) (level : UInt8) (objects : List Blob.PageObjectKey) :
    M B (MaintenanceSnapshot × List String) :=
  let los := objects.map Blob.PageObjectKey.seqLo
  let fromSeqLo := los.foldl min (los.headD 0)
  let throughSeqLo := los.foldl max (los.headD 0)
  reachableFrom r partition level (objects.map Blob.PageObjectKey.key) throughSeqLo
    (throughSeqLo.toNat - fromSeqLo.toNat + 1) fromSeqLo none []

/-- The snapshot stands where no object of the page has a page key. -/
def reachableAmong (snapshot : MaintenanceSnapshot) (partition : UInt32) (level : UInt8) (objects : List Blob.PageObjectKey) :
    M B (MaintenanceSnapshot × List String) :=
  if objects = [] then return (snapshot, []) else reachablePagesForObjectPage r partition level objects

/-! ## Quarantine -/

/-- The candidate has been in quarantine for the delay. -/
def quarantineOver (opts : Options) (now : Int) (candidate : QuarantineObject) : Bool :=
  timeFromUnixMilli candidate.observedMS + opts.deleteDelay ≤ now

/-- The first loop of `processPageQuarantine`: the candidates to check, with what their keys say. -/
def selectChecks (opts : Options) (partition : UInt32) (now : Int) :
    Int → List QuarantineObject → Except Err (List (QuarantineObject × Option Blob.PageObjectKey))
  | _, [] => .ok []
  | remaining, candidate :: candidates =>
    if remaining ≤ 0 then .ok ((candidate :: candidates).map (·, none))
    else if quarantineOver opts now candidate = false then do
      let rest ← selectChecks opts partition now remaining candidates
      return (candidate, none) :: rest
    else do
      let parsed ← restate (Blob.parsePagePath opts.catalogPrefix opts.streamID partition candidate.key)
        fun e => corruptState ("quarantine page: " ++ e.text)
      let rest ← selectChecks opts partition now (remaining - 1) candidates
      return (candidate, some parsed) :: rest

/-- What the catalog refers to at a level. -/
structure Reachable where
  level : UInt8
  snapshot : MaintenanceSnapshot
  keys : List String

def reachableByLevel (partition : UInt32) (checks : List Blob.PageObjectKey) : List UInt8 → M B (List Reachable)
  | [] => return []
  | level :: levels => do
    let (snapshot, keys) ← reachablePagesForObjectPage r partition level (checks.filter (·.level = level))
    let rest ← reachableByLevel partition checks levels
    return ⟨level, snapshot, keys⟩ :: rest

/-- The variables of the second loop. -/
structure Sweep where
  remaining : List QuarantineObject
  changed : Bool
  deletes : List DeleteCandidate
  scheduledBytes : UInt64

/-- The second loop of `processPageQuarantine`. -/
def sweepQuarantine (opts : Options) (levels : List Reachable) :
    List (QuarantineObject × Option Blob.PageObjectKey) → Sweep → PassState → Except Err Sweep × PassState
  | [], sweep, p => (.ok sweep, p)
  | (candidate, none) :: rest, sweep, p =>
    sweepQuarantine opts levels rest { sweep with remaining := sweep.remaining ++ [candidate] } p
  | (candidate, some parsed) :: rest, sweep, p =>
    let kept := { sweep with remaining := sweep.remaining ++ [candidate] }
    if p.available opts = false then sweepQuarantine opts levels rest kept p
    else
      let p := p.recordScan opts 1
      match levels.find? (·.level = parsed.level) with
      | none => sweepQuarantine opts levels rest kept p
      | some reachable =>
        if reachable.snapshot.generation < candidate.observedGeneration then
          (.error (.plain (s!"lifecycle: catalog generation regressed current={reachable.snapshot.generation}" ++
            s!" observed={candidate.observedGeneration}")), p)
        else if candidate.key ∈ reachable.keys then sweepQuarantine opts levels rest { sweep with changed := true } p
        else if parsed.generation ≥ reachable.snapshot.generation then sweepQuarantine opts levels rest kept p
        else
          let p := p.recordCandidate
          if opts.dryRun = true then sweepQuarantine opts levels rest kept p
          else
            match p.canScheduleDelete opts candidate.sizeBytes sweep.deletes.length sweep.scheduledBytes with
            | (false, p) => sweepQuarantine opts levels rest kept p
            | (true, p) => sweepQuarantine opts levels rest { sweep with
                deletes := sweep.deletes ++ [⟨candidate.key, candidate.sizeBytes, ""⟩]
                scheduledBytes := sweep.scheduledBytes + candidate.sizeBytes } p

def sweepPass (levels : List Reachable) (checks : List (QuarantineObject × Option Blob.PageObjectKey)) : M B Sweep := do
  let p ← getThe PassState
  let (sweep, p) := sweepQuarantine r.opts levels checks ⟨[], false, [], 0⟩ p
  modify fun _ => p
  ofExcept sweep

def processPageQuarantine : M B Unit := do
  let p ← getThe PassState
  if p.state.pageQuarantine = [] then return ()
  else do
    let now : Int ← now
    if p.remaining r.opts ≤ 0 then modify PassState.exhaust
    else do
      let checks ← ofExcept (selectChecks r.opts p.state.partition now (p.remaining r.opts) p.state.pageQuarantine)
      let selected := checks.filterMap Prod.snd
      let levels ← reachableByLevel r p.state.partition selected (selected.map Blob.PageObjectKey.level).dedup
      let sweep ← sweepPass r levels checks
      let (_, err) ← executeDeletes r sweep.deletes
      match err with
      | some err => throw err
      | none =>
        if r.opts.dryRun = true ∨ (sweep.changed = false ∧ sweep.deletes = []) then return ()
        else do
          setState fun s => { s with pageQuarantine := sweep.remaining }
          saveState r

/-! ## Orphans -/

def orphanSegmentEligible (baseLSN writerEpoch safeFloorLSN : UInt64) (snapshot : MaintenanceSnapshot) : Bool :=
  if baseLSN < snapshot.head.oldestLSN ∧ baseLSN ≥ safeFloorLSN then false
  else if writerEpoch > snapshot.head.writerEpoch then false
  else baseLSN < snapshot.head.nextLSN || writerEpoch < snapshot.head.writerEpoch

def completeOrphanSegments : M B Unit := unlessDry r do
  setState (orphanSegmentAfterKey.write "")
  saveState r

/-- The objects whose keys parse, and how many do not. -/
def parseObjects {K : Type} (parse : String → Option K) : List ObjectInfo → PassState → List (ObjectInfo × K) × PassState
  | [], p => ([], p)
  | object :: objects, p =>
    match parse object.key with
    | none => parseObjects parse objects p.invalid
    | some key =>
      let (parsed, p) := parseObjects parse objects p
      ((object, key) :: parsed, p)

def parsePage {K : Type} (parse : String → Option K) (objects : List ObjectInfo) : M B (List (ObjectInfo × K)) := do
  let p ← getThe PassState
  let (parsed, p) := parseObjects parse objects p
  modify fun _ => p
  return parsed

def judgeOrphanSegment (partition : UInt32) (safeFloorLSN : UInt64) (now : Int) (fresh : MaintenanceSnapshot)
    (referenced : List String) (object : ObjectInfo) : Judged :=
  match r.layout.parseSegmentKey r.opts.streamID partition object.key with
  | .error _ => .skip
  | .ok parsed =>
    if oldEnough object.createdAt now r.opts.deleteDelay = false ∨
        orphanSegmentEligible parsed.baseLSN parsed.writerEpoch safeFloorLSN fresh = false ∨ object.key ∈ referenced then
      .skip
    else .candidate

/-- The last key of a page that was processed whole. -/
def pageEnd (objects : List ObjectInfo) (lastProcessed : String) : String :=
  match objects.getLast? with
  | some object => if lastProcessed < object.key then object.key else lastProcessed
  | none => lastProcessed

def scrubSegmentOrphansFrom (snapshot : MaintenanceSnapshot) (now : Int) : Nat → String → M B Bool
  | 0, _ => return true
  | turns + 1, afterKey => do
    let p ← getThe PassState
    if p.available r.opts = false then return true
    else do
      let limit ← listLimit r
      let page ← listObjects r (r.layout.segmentPrefix r.opts.streamID p.state.partition) afterKey limit
      if page.objects = [] then do
        completeOrphanSegments r
        return false
      else do
        let parsed ← parsePage (fun key =>
          (r.layout.parseSegmentKey r.opts.streamID p.state.partition key).toOption) page.objects
        let (fresh, referenced) ← referencedAmong r snapshot p.state.partition (parsed.map Prod.snd)
        let plan ← planPage r (judgeOrphanSegment r p.state.partition p.state.safeFloorLSN now fresh referenced) afterKey
          (parsed.map Prod.fst)
        deletePlanned r orphanSegmentAfterKey plan
        if plan.budgetStopped = true then do
          checkpoint r orphanSegmentAfterKey plan.lastProcessed
          return true
        else do
          let lastProcessed := pageEnd page.objects plan.lastProcessed
          if r.opts.dryRun = true then
            if page.hasMore = false then return false else scrubSegmentOrphansFrom snapshot now turns lastProcessed
          else do
            setState (orphanSegmentAfterKey.write lastProcessed)
            if page.hasMore = false then do
              completeOrphanSegments r
              return false
            else do
              saveState r
              scrubSegmentOrphansFrom snapshot now turns lastProcessed

def scrubSegmentOrphans (snapshot : MaintenanceSnapshot) (turns : Nat) : M B Bool := do
  let state ← getState
  let now : Int ← now
  scrubSegmentOrphansFrom r snapshot now turns
    (if state.orphanSegmentAfterKey = "" then r.layout.segmentPrefix r.opts.streamID state.partition
    else state.orphanSegmentAfterKey)

def checkpointOrphanPage (level : UInt8) (afterKey : String) : M B Unit := unlessDry r do
  setState fun s => { s with orphanPageLevel := level, orphanPageAfterKey := afterKey }
  saveState r

def completeOrphanPages : M B Unit := unlessDry r do
  setState fun s => { s with orphanPageLevel := 0, orphanPageAfterKey := "" }
  saveState r

/-- The loop over the pages of a listing: the last key processed, and whether the quarantine is full. -/
def quarantineOrphans (fresh : MaintenanceSnapshot) (reachable : List String) :
    String → List (ObjectInfo × Blob.PageObjectKey) → M B (String × Bool)
  | lastProcessed, [] => return (lastProcessed, false)
  | lastProcessed, (object, parsed) :: rest => do
    let p ← getThe PassState
    if parsed.generation ≥ fresh.generation ∨ object.key ∈ p.state.pageQuarantine.map QuarantineObject.key ∨
        object.key ∈ reachable then quarantineOrphans fresh reachable object.key rest
    else do
      modify PassState.recordCandidate
      if p.state.pageQuarantine.length ≥ r.opts.maxQuarantine then return (lastProcessed, true)
      else do
        unlessDry r do
          let now : Int ← now
          setState fun s => { s with
            pageQuarantine := s.pageQuarantine ++ [⟨object.key, objectSize object, fresh.generation, unixMilli now⟩] }
        modify fun p => { p with
          result := { p.result with quarantinedObjects := p.result.quarantinedObjects + 1 } }
        quarantineOrphans fresh reachable object.key rest

/-- The key of a page at this level. -/
def parsePageAt (partition : UInt32) (level : UInt8) (key : String) : Option Blob.PageObjectKey :=
  match Blob.parsePagePath r.opts.catalogPrefix r.opts.streamID partition key with
  | .error _ => none
  | .ok parsed => if parsed.level ≠ level then none else some parsed

def scrubPageOrphansFrom (snapshot : MaintenanceSnapshot) : Nat → UInt8 → String → M B Bool
  | 0, _, _ => return (← getThe PassState).exhausted
  | turns + 1, level, afterKey => do
    let p ← getThe PassState
    if level > p.state.maxPageLevel ∨ p.available r.opts = false then return p.exhausted
    else do
      let levelPrefix := Blob.pageLevelPrefix r.opts.catalogPrefix r.opts.streamID p.state.partition level
      let afterKey := if afterKey = "" then levelPrefix else afterKey
      let limit ← listLimit r
      let page ← listObjects r levelPrefix afterKey limit
      if page.objects = [] then
        if level + 1 > p.state.maxPageLevel then do
          completeOrphanPages r
          return false
        else do
          checkpointOrphanPage r (level + 1) ""
          scrubPageOrphansFrom snapshot turns (level + 1) ""
      else do
        let parsed ← parsePage (parsePageAt r p.state.partition level) page.objects
        let (fresh, reachable) ← reachableAmong r snapshot p.state.partition level (parsed.map Prod.snd)
        let (lastProcessed, full) ← quarantineOrphans r fresh reachable afterKey parsed
        if full = true then do
          checkpointOrphanPage r level lastProcessed
          return true
        else do
          let lastProcessed := pageEnd page.objects lastProcessed
          if r.opts.dryRun = true then
            if page.hasMore = false then scrubPageOrphansFrom snapshot turns (level + 1) ""
            else scrubPageOrphansFrom snapshot turns level lastProcessed
          else if page.hasMore = false then
            if level + 1 > p.state.maxPageLevel then do
              completeOrphanPages r
              return false
            else do
              checkpointOrphanPage r (level + 1) ""
              scrubPageOrphansFrom snapshot turns (level + 1) ""
          else do
            checkpointOrphanPage r level lastProcessed
            scrubPageOrphansFrom snapshot turns level lastProcessed

def scrubPageOrphans (snapshot : MaintenanceSnapshot) (turns : Nat) : M B Bool := do
  let state ← getState
  scrubPageOrphansFrom r snapshot turns state.orphanPageLevel state.orphanPageAfterKey

/-! ## Calls -/

/-- As many turns as objects a run may list and levels there may be. -/
def Reclaimer.turns : Nat := r.opts.maxObjectsPerRun.toNat + 256

/-- A phase of a run, where the budget and the state call for it. -/
def phase {α : Type} (c : StateFile → Bool) (otherwise : α) (x : M B α) : M B α := do
  let p ← getThe PassState
  if c p.state = true ∧ p.available r.opts = true then x else return otherwise

/-- Store what the head showed, if it showed anything new. -/
def saveObserved (changed : Bool) : M B Unit :=
  if changed = true then unlessDry r (saveState r) else return ()

/-- `RunPartition` between the lease and its release. -/
def runBody (partition : UInt32) (now : Int) : M B Result := do
  let snapshot ← loadSnapshot r partition
  let state ← getState
  let (observed, changed) := observeHead r.opts snapshot now state
  setState fun _ => observed
  saveObserved r changed
  phase r (fun s => s.segmentReclaimedThroughLSN < s.safeFloorLSN) () (reclaimSegments r r.turns)
  phase r (fun s => s.pageReclaimedThroughLSN < s.safeFloorLSN) () (reclaimPages r r.turns)
  phase r (fun _ => true) () (reclaimStaging r snapshot r.turns)
  let p ← getThe PassState
  return { p.result with
    safeFloorLSN := p.state.safeFloorLSN
    reclaimedThroughLSN := min p.state.segmentReclaimedThroughLSN p.state.pageReclaimedThroughLSN
    hasMore := p.state.segmentReclaimedThroughLSN < p.state.safeFloorLSN ||
      p.state.pageReclaimedThroughLSN < p.state.safeFloorLSN || p.state.hasPendingFloor || p.exhausted }

/-- A level that a scrub sees for the first time. -/
def observeLevel (level : UInt8) : M B Unit := do
  let state ← getState
  if level > state.maxPageLevel then unlessDry r do
    setState fun s => { s with maxPageLevel := level }
    saveState r
  else return ()

/-- `ScrubPartition` between the lease and its release. -/
def scrubBody (partition : UInt32) : M B Result := do
  let snapshot ← loadSnapshot r partition
  observeLevel r snapshot.maxIndexLevel
  processPageQuarantine r
  let segmentMore ← phase r (fun _ => true) false (scrubSegmentOrphans r snapshot r.turns)
  let pageMore ← phase r (fun _ => !segmentMore) false (scrubPageOrphans r snapshot r.turns)
  let p ← getThe PassState
  return { p.result with
    safeFloorLSN := p.state.safeFloorLSN
    reclaimedThroughLSN := min p.state.segmentReclaimedThroughLSN p.state.pageReclaimedThroughLSN
    pendingQuarantine := p.state.pageQuarantine.length
    hasMore := segmentMore || pageMore || p.exhausted }

/-- The deferred release: a dry run gives back the state it acquired. -/
def releaseAfter (acquired : StateFile) : M B Unit := do
  setState fun state => if r.opts.dryRun = true then acquired else state
  release r

def leased (partition : UInt32) (body : Int → M B Result) : M B (Result × Option Err) := do
  let ctxErr : Option Err ← perform .ctxErr
  match ctxErr with
  | some err => throw err
  | none => do
    let now : Int ← now
    acquire r partition now
    let acquired ← getState
    let outcome ← attempt (body now)
    let released ← attempt (releaseAfter r acquired)
    let releaseErr : Option Err := match released with
      | .ok _ => none
      | .error err => some (.within "lifecycle: release lease" err)
    return match outcome, releaseErr with
      | .ok result, err => (result, err)
      | .error err, none => (Result.zero, some err)
      | .error err, some releaseErr => (Result.zero, some (.join (some err) releaseErr))

def runPartition (partition : UInt32) : M B (Result × Option Err) := leased r partition (runBody r partition)

def scrubPartition (partition : UInt32) : M B (Result × Option Err) := leased r partition fun _ => scrubBody r partition

inductive Call where
  | runPartition
  | scrubPartition
deriving DecidableEq

def Reclaimer.exec (call : Call) (partition : UInt32) : M B (Result × Option Err) :=
  match call with
  | .runPartition => runPartition r partition
  | .scrubPartition => scrubPartition r partition

/-- Before a call. There is no state before `acquire`, and none is read. -/
def PassState.start : PassState := ⟨.initial "" 0, 0, .zero, false, [], []⟩

end ObjLog.Lifecycle
