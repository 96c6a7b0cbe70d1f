import ObjLog.Lifecycle.State
/-!
# Budgets and deletes, `internal/lifecycle/reclaimer.go` and `internal/lifecycle/delete.go`

What a pass may still list and delete, and the deletes themselves. Workers that
delete at the same time are one after the other here: each of their calls is answered
on its own.
-/

namespace ObjLog.Lifecycle

open Lib

/-! ## The budget of a run -/

namespace PassState

variable (opts : Options) (p : PassState)

def available : Bool :=
  !p.exhausted && p.result.scannedObjects < opts.maxObjectsPerRun && p.result.deletedObjects < opts.maxDeletesPerRun

def remaining : Int := opts.maxObjectsPerRun - p.result.scannedObjects

def exhaust : PassState := { p with exhausted := true }

def recordScan (count : Nat) : PassState :=
  let scannedObjects := p.result.scannedObjects + count
  { p with
    result := { p.result with scannedObjects := scannedObjects }
    exhausted := p.exhausted || scannedObjects ≥ opts.maxObjectsPerRun
    scans := p.scans ++ [count] }

def recordCandidate : PassState := { p with result := { p.result with candidateObjects := p.result.candidateObjects + 1 } }

def recordDelete (size : UInt64) : PassState :=
  let deletedObjects := p.result.deletedObjects + 1
  let deletedBytes := p.result.deletedBytes + size
  { p with
    result := { p.result with deletedObjects := deletedObjects, deletedBytes := deletedBytes }
    exhausted := p.exhausted || deletedObjects ≥ opts.maxDeletesPerRun || deletedBytes ≥ opts.maxDeleteBytes
    deletes := p.deletes ++ [size] }

def invalid : PassState := { p with result := { p.result with invalidObjects := p.result.invalidObjects + 1 } }

/-- `^uint64(0)`. -/
def maxUint64 : UInt64 := UInt64.ofNat (2 ^ 64 - 1)

/-- Whether one more object may be deleted, and the budget after the question. -/
def canScheduleDelete (size : UInt64) (scheduledCount : Nat) (scheduledBytes : UInt64) : Bool × PassState :=
  if p.result.deletedObjects + scheduledCount ≥ opts.maxDeletesPerRun then (false, p.exhaust)
  else if size > maxUint64 - scheduledBytes ∨ p.result.deletedBytes > maxUint64 - scheduledBytes then (false, p.exhaust)
  else
    let usedBytes := p.result.deletedBytes + scheduledBytes
    if p.result.deletedObjects + scheduledCount > 0 ∧
        (usedBytes ≥ opts.maxDeleteBytes ∨ size > opts.maxDeleteBytes - usedBytes) then (false, p.exhaust)
    else (true, p)

end PassState

/-! ## What is deleted -/

structure DeleteCandidate where
  key : String
  size : UInt64
  beforeKey : String
deriving DecidableEq

/-- What a pass makes of a listed object: not one of its keys, not to be deleted, the first one that is out of reach, or
one to delete. -/
inductive Judged where
  | invalid
  | skip
  | stop
  | candidate
deriving DecidableEq

/-- The variables of the loop over a page of objects. -/
structure Plan where
  lastProcessed : String
  candidates : List DeleteCandidate
  scheduledBytes : UInt64
  reachedEnd : Bool
  budgetStopped : Bool

def Plan.empty (afterKey : String) : Plan := ⟨afterKey, [], 0, false, false⟩

/-- The loop over a page of objects. -/
def planObjects (opts : Options) (judge : ObjectInfo → Judged) : List ObjectInfo → Plan → PassState → Plan × PassState
  | [], plan, p => (plan, p)
  | object :: objects, plan, p =>
    match judge object with
    | .invalid => planObjects opts judge objects { plan with lastProcessed := object.key } p.invalid
    | .skip => planObjects opts judge objects { plan with lastProcessed := object.key } p
    | .stop => ({ plan with reachedEnd := true }, p)
    | .candidate =>
      let p := p.recordCandidate
      if opts.dryRun = true then planObjects opts judge objects { plan with lastProcessed := object.key } p
      else
        let size := objectSize object
        match p.canScheduleDelete opts size plan.candidates.length plan.scheduledBytes with
        | (false, p) => ({ plan with budgetStopped := true }, p)
        | (true, p) => planObjects opts judge objects { plan with
            lastProcessed := object.key
            candidates := plan.candidates ++ [⟨object.key, size, plan.lastProcessed⟩]
            scheduledBytes := plan.scheduledBytes + size } p

section
variable {B : Type} (r : Reclaimer)

def listLimit : M B Int := do
  let p ← getThe PassState
  if p.remaining r.opts ≤ 0 then do
    modify PassState.exhaust
    return 0
  else return min (p.remaining r.opts) r.opts.listPageSize

def validateObjectsFrom : String → List ObjectInfo → Except Err Unit
  | _, [] => .ok ()
  | previous, object :: objects => do
    failIf (object.key = "" ∨ object.key ≤ previous)
      (.plain s!"lifecycle: non-increasing object page key={object.key.quote} previous={previous.quote}")
    validateObjectsFrom object.key objects

def validateObjectPage (page : ObjectPage) (afterKey : String) : Except Err Unit := do
  validateObjectsFrom afterKey page.objects
  if page.hasMore = true then
    failIf (page.objects.getLast?.map ObjectInfo.key ≠ some page.nextAfterKey)
      (.plain s!"lifecycle: invalid next after key {page.nextAfterKey.quote}")
  else
    failIf (page.nextAfterKey ≠ "")
      (.plain s!"lifecycle: terminal page has next after key {page.nextAfterKey.quote}")

/-- A page of objects, counted. -/
def listObjects (listPrefix afterKey : String) (limit : Int) : M B ObjectPage := do
  let answer : Except Err ObjectPage ← perform (.list ⟨listPrefix, afterKey, limit⟩)
  let page ← ofExcept answer
  ofExcept (validateObjectPage page afterKey)
  modify fun p => p.recordScan r.opts page.objects.length
  return page

def planPage (judge : ObjectInfo → Judged) (afterKey : String) (objects : List ObjectInfo) : M B Plan := do
  let p ← getThe PassState
  let (plan, p) := planObjects r.opts judge objects (.empty afterKey) p
  modify fun _ => p
  return plan

/-! ## Deletes -/

def waitForDeleteBudget (objects : Nat) : M B Unit := do
  let err : Option Err ← perform .ctxErr
  match err with
  | some err => throw (.within "lifecycle: delete context" err)
  | none =>
    if r.opts.deleteRateLimiter = false then return ()
    else do
      let err : Option Err ← perform (.rateWait objects)
      match err with
      | some err => throw (.within "lifecycle: wait for delete rate budget" err)
      | none => do
        let err : Option Err ← perform .ctxErr
        match err with
        | some err => throw (.within "lifecycle: delete context after rate wait" err)
        | none => return ()

/-- The checks before a request for deletes. -/
def mayDelete (objects : Nat) : M B Unit := do
  waitForDeleteBudget r objects
  checkLease r

def deleteOne (candidate : DeleteCandidate) : M B (Option Err) := do
  match ← attempt (mayDelete r 1) with
  | .error err => return some err
  | .ok _ => perform (.delete candidate.key)

def deleteAll (candidates : List DeleteCandidate) : M B (List (Option Err)) := do
  match ← attempt (mayDelete r candidates.length) with
  | .error err => return candidates.map fun _ => some err
  | .ok _ => do
    let errs : List (Option Err) ← perform (.deleteBatch (candidates.map DeleteCandidate.key))
    if errs.length = candidates.length then return errs
    else return candidates.map fun _ => some (.plain
      s!"lifecycle: batch delete returned {errs.length} results for {candidates.length} keys")

/-- One request, or one for each candidate. -/
def deleteEach : List DeleteCandidate → M B (List (Option Err))
  | [] => return []
  | candidate :: candidates => do
    let err : Option Err ← deleteOne r candidate
    let errs ← deleteEach candidates
    return err :: errs

def deleteWave (candidates : List DeleteCandidate) : M B (List (Option Err)) :=
  if r.batch = true then deleteAll r candidates else deleteEach r candidates

/-- The first failure and how many there are. -/
structure Failures where
  first : Option (DeleteCandidate × Err)
  count : Nat

/-- The loop over the results of a wave. -/
def recordWave (opts : Options) : List (DeleteCandidate × Option Err) → Failures → PassState → Failures × PassState
  | [], failures, p => (failures, p)
  | (candidate, none) :: results, failures, p => recordWave opts results failures (p.recordDelete opts candidate.size)
  | (candidate, some err) :: results, failures, p =>
    recordWave opts results ⟨failures.first.or (some (candidate, err)), failures.count + 1⟩ p

/-- How `executeDeletes` ends: the key to go on after, and the error. -/
def Failures.outcome (failures : Failures) : String × Option Err :=
  match failures.first with
  | none => ("", none)
  | some (candidate, err) => (candidate.beforeKey, some (.within
      s!"lifecycle: delete failed objects={failures.count} first_key={candidate.key.quote}" err))

/-- The loop over the waves, with the turns left. Every wave has at least one candidate. -/
def executeFrom (total : Nat) : Nat → Nat → List DeleteCandidate → Failures → M B (String × Option Err)
  | _, _, [], failures => return failures.outcome
  | 0, _, _ :: _, failures => return failures.outcome
  | turns + 1, done, candidates, failures => do
    let wave := candidates.take r.opts.deleteBatchSize.toNat
    let rest := candidates.drop r.opts.deleteBatchSize.toNat
    let errs ← deleteWave r wave
    let p ← getThe PassState
    let (failures, p) := recordWave r.opts (wave.zip errs) failures p
    modify fun _ => p
    let ctxErr : Option Err ← perform .ctxErr
    match ctxErr with
    | none => executeFrom total turns (done + wave.length) rest failures
    | some err =>
      match failures.first, rest with
      | none, next :: _ => return (next.beforeKey, some (.within
          s!"lifecycle: delete cancelled after {done + wave.length}/{total} candidates" err))
      | _, _ => return failures.outcome

def executeDeletes (candidates : List DeleteCandidate) : M B (String × Option Err) :=
  if candidates = [] ∨ r.opts.dryRun = true then return ("", none)
  else executeFrom r candidates.length candidates.length 0 candidates ⟨none, 0⟩

end

end ObjLog.Lifecycle
