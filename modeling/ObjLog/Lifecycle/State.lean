import ObjLog.Blob.Paths
import ObjLog.Blobstore
import ObjLog.Lifecycle.Types
import ObjLog.Sink.Layout
/-!
# The garbage collection state of a partition, `internal/lifecycle/state.go`

The state file, its validation, the observation of a head, and the operations on the
lease. A pass is a program that performs operations on the store, the catalog, the
clock and its context, with its copy of the state, the token of the stored state and
its budget as its own state.

`StateJSON` is what `encoding/json` does with a state.
-/

namespace ObjLog.Lifecycle

open Lib Pmeta

structure QuarantineObject where
  key : String
  sizeBytes : UInt64
  observedGeneration : UInt64
  observedMS : Int
deriving DecidableEq

structure StateFile where
  version : Int
  streamID : String
  partition : UInt32
  ownerID : String
  leaseUntilMS : Int
  retentionVersion : UInt64
  safeFloorLSN : UInt64
  pendingFloorLSN : UInt64
  pendingSinceMS : Int
  hasPendingFloor : Bool
  segmentReclaimedThroughLSN : UInt64
  segmentAfterKey : String
  pageReclaimedThroughLSN : UInt64
  pageLevel : UInt8
  pageAfterKey : String
  maxPageLevel : UInt8
  stagingAfterKey : String
  stagingEpoch : UInt64
  orphanSegmentAfterKey : String
  orphanPageLevel : UInt8
  orphanPageAfterKey : String
  pageQuarantine : List QuarantineObject
  updatedMS : Int
deriving DecidableEq

/-- The state of a partition that has none yet. -/
def StateFile.initial (streamID : String) (partition : UInt32) : StateFile :=
  ⟨1, streamID, partition, "", 0, 0, 0, 0, 0, false, 0, "", 0, 0, "", 0, "", 0, "", 0, "", [], 0⟩

/-! ## Validation -/

def validateQuarantine : List String → List QuarantineObject → Except Err Unit
  | _, [] => .ok ()
  | seen, candidate :: candidates => do
    failIf (candidate.key = "" ∨ candidate.observedGeneration = 0 ∨ candidate.observedMS ≤ 0)
      (corruptState "invalid quarantine candidate")
    failIf (candidate.key ∈ seen) (corruptState s!"duplicate quarantine key={candidate.key.quote}")
    validateQuarantine (candidate.key :: seen) candidates

def validateState (state : StateFile) (streamID : String) (partition : UInt32) : Except Err Unit := do
  failIf (state.version ≠ 1) (corruptState s!"version={state.version}")
  failIf (state.streamID ≠ streamID) (corruptState s!"stream_id={state.streamID.quote} want={streamID.quote}")
  failIf (state.partition ≠ partition) (corruptState s!"partition={state.partition} want={partition}")
  failIf (state.safeFloorLSN < state.segmentReclaimedThroughLSN)
    (corruptState s!"segment reclaimed={state.segmentReclaimedThroughLSN} exceeds safe floor={state.safeFloorLSN}")
  failIf (state.safeFloorLSN < state.pageReclaimedThroughLSN)
    (corruptState s!"page reclaimed={state.pageReclaimedThroughLSN} exceeds safe floor={state.safeFloorLSN}")
  failIf (state.hasPendingFloor = true ∧ state.pendingFloorLSN ≤ state.safeFloorLSN)
    (corruptState s!"pending floor={state.pendingFloorLSN} safe={state.safeFloorLSN}")
  failIf (state.hasPendingFloor = false ∧ (state.pendingFloorLSN ≠ 0 ∨ state.pendingSinceMS ≠ 0))
    (corruptState "pending fields without pending floor")
  failIf (state.pageLevel > state.maxPageLevel ∧ state.pageReclaimedThroughLSN < state.safeFloorLSN)
    (corruptState s!"page level={state.pageLevel} max={state.maxPageLevel}")
  failIf (state.orphanPageLevel > state.maxPageLevel ∧ state.orphanPageAfterKey ≠ "")
    (corruptState s!"orphan page level={state.orphanPageLevel} max={state.maxPageLevel}")
  failIf (state.pageQuarantine.length > maxQuarantineEntries)
    (corruptState s!"quarantine entries={state.pageQuarantine.length} max={maxQuarantineEntries}")
  validateQuarantine [] state.pageQuarantine
  failIf (state.ownerID ≠ "" ∧ (hexDecode state.ownerID.toList).all (·.length ≠ 16))
    (corruptState "invalid owner_id")

/-! ## The observation of a head -/

/-- A pending floor whose delay is over. -/
def promoteFloor (delay now : Int) (state : StateFile) : StateFile × Bool :=
  if state.hasPendingFloor = true ∧ timeFromUnixMilli state.pendingSinceMS + delay ≤ now then
    ({ state with
      safeFloorLSN := state.pendingFloorLSN
      pageLevel := 0
      pageAfterKey := ""
      pendingFloorLSN := 0
      pendingSinceMS := 0
      hasPendingFloor := false }, true)
  else (state, false)

def pendFloor (head : PartitionHead) (now : Int) (state : StateFile) : StateFile × Bool :=
  if state.hasPendingFloor = false ∧ head.oldestLSN > state.safeFloorLSN then
    ({ state with
      pendingFloorLSN := head.oldestLSN
      pendingSinceMS := unixMilli now
      hasPendingFloor := true }, true)
  else (state, false)

/-- The new state, and whether it changed. -/
def observeHead (opts : Options) (snapshot : MaintenanceSnapshot) (now : Int) (state : StateFile) : StateFile × Bool :=
  let retention : StateFile × Bool :=
    if snapshot.head.appliedRetentionVersion > state.retentionVersion then
      ({ state with retentionVersion := snapshot.head.appliedRetentionVersion }, true)
    else (state, false)
  let level : StateFile × Bool :=
    if snapshot.maxIndexLevel > retention.1.maxPageLevel then
      ({ retention.1 with maxPageLevel := snapshot.maxIndexLevel }, true)
    else (retention.1, false)
  let promoted := promoteFloor opts.deleteDelay now level.1
  let pended := pendFloor snapshot.head now promoted.1
  (pended.1, retention.2 || level.2 || promoted.2 || pended.2)

/-! ## Programs -/

structure Object (B : Type) where
  body : B
  token : Blobstore.Token

/-- The last is history: no answer depends on it. -/
inductive Op (B : Type) where
  /-- `ctx.Err()`. -/
  | ctxErr
  /-- `r.now()`. -/
  | now
  | get (key : String)
  | cas (key : String) (expected : Blobstore.Token) (body : B)
  | list (opts : ListOptions)
  | delete (key : String)
  | deleteBatch (keys : List String)
  /-- `DeleteRateLimiter.Wait`. -/
  | rateWait (objects : Nat)
  /-- `LoadMaintenanceSnapshot`. -/
  | snapshot (partition : UInt32)
  /-- `ListMaintenanceSegments`. -/
  | segments (partition : UInt32) (fromLSN : UInt64)
  /-- `ListMaintenancePages`. -/
  | pages (partition : UInt32) (level : UInt8) (fromSeqLo : UInt64)
  /-- A state is passed to `marshalState`. -/
  | marshal (state : StateFile)

@[reducible] def Op.Answer {B : Type} : Op B → Type
  | .ctxErr | .delete _ | .rateWait _ => Option Err
  | .now => Int
  | .get _ => Except Err (Object B)
  | .cas _ _ _ => Except Err (Object B × Bool)
  | .list _ => Except Err ObjectPage
  | .deleteBatch _ => List (Option Err)
  | .snapshot _ => Except Err MaintenanceSnapshot
  | .segments _ _ => Except Err (MaintenanceSnapshot × SegmentPage)
  | .pages _ _ _ => Except Err (MaintenanceSnapshot × MaintenancePage)
  | .marshal _ => Unit

/-- `json.Marshal` and `json.Unmarshal`. -/
class StateJSON (B : Type) where
  marshal : StateFile → B
  unmarshal : B → Except Err StateFile
  unmarshal_marshal : ∀ state, unmarshal (marshal state) = .ok state

/-- What a pass keeps: its copy of the state, the token of the stored state, and its budget. The lists are history: the
sizes of the listings counted so far and of the objects deleted. -/
structure PassState where
  state : StateFile
  token : Blobstore.Token
  result : Result
  exhausted : Bool
  scans : List Nat
  deletes : List UInt64

abbrev Effects (B : Type) := Prog (Op B) Op.Answer

abbrev M (B : Type) := ExceptT Err (StateT PassState (Effects B))

/-- A reclaimer that `newReclaimer` made. `batch` says whether its backend deletes in batches. -/
structure Reclaimer where
  given : Options
  random : Except Err (Arr 16)
  opts : Options
  made : newReclaimer given random = .ok opts
  layout : Sink.Layout
  batch : Bool

section
variable {B : Type}

def perform (e : Op B) : M B e.Answer := ExceptT.mk (StateT.lift (Except.ok <$> Prog.perform e))

/-- An answer that may be an error. -/
def ofExcept {α : Type} (x : Except Err α) : M B α := ExceptT.mk (pure x)

/-- The call's result and error as a value, where the source goes on after an error. -/
def attempt {α : Type} (x : M B α) : M B (Except Err α) := ExceptT.lift x.run

def now : M B Int := perform .now

def getState : M B StateFile := do return (← getThe PassState).state

def setState (f : StateFile → StateFile) : M B Unit := modify fun p => { p with state := f p.state }

variable [StateJSON B]

def marshalState (state : StateFile) (streamID : String) (partition : UInt32) : M B B := do
  perform (.marshal state)
  ofExcept (validateState state streamID partition)
  return StateJSON.marshal state

def decodeState (body : B) (streamID : String) (partition : UInt32) : Except Err StateFile := do
  let state ← restate (StateJSON.unmarshal body) fun e => corruptState ("decode: " ++ e.text)
  validateState state streamID partition
  return state

variable [Hashes]

/-- `catalogblob.GCStatePath`. -/
def gcStatePath (catalogPrefix streamID : String) (partition : UInt32) : String :=
  Blob.partitionPrefix catalogPrefix streamID partition ++ "/maintenance/gc/state.json"

variable (r : Reclaimer)

/-- The owner as it stands in a state. -/
def Reclaimer.owner : String := hexString r.opts.ownerID.bytes

def Reclaimer.path (partition : UInt32) : String := gcStatePath r.opts.catalogPrefix r.opts.streamID partition

def loadState (partition : UInt32) : M B (StateFile × Blobstore.Token) := do
  let answer : Except Err (Object B) ← perform (.get (r.path partition))
  match answer with
  | .error err =>
    if err.is .objectNotFound then return (StateFile.initial r.opts.streamID partition, 0) else throw err
  | .ok obj => do
    let state ← ofExcept (decodeState obj.body r.opts.streamID partition)
    return (state, obj.token)

/-- The loop of `acquire`, with the attempts left. -/
def acquireFrom (partition : UInt32) (now : Int) : Nat → M B Unit
  | 0 => throw (leaseLost "acquire retries exhausted")
  | attempts + 1 => do
    let (state, token) ← loadState r partition
    if state.ownerID ≠ "" ∧ state.ownerID ≠ r.owner ∧ state.leaseUntilMS > unixMilli now then
      throw (leaseHeld s!"owner={state.ownerID} until={state.leaseUntilMS}")
    else do
      let state := { state with
        ownerID := r.owner
        leaseUntilMS := unixMilli (now + r.opts.leaseDuration)
        updatedMS := unixMilli now }
      let body : B ← marshalState state r.opts.streamID partition
      let answer : Except Err (Object B × Bool) ← perform (.cas (r.path partition) token body)
      let (obj, swapped) ← ofExcept answer
      if swapped then modify fun p => { p with state := state, token := obj.token }
      else acquireFrom partition now attempts

def acquire (partition : UInt32) (now : Int) : M B Unit := acquireFrom r partition now r.opts.casAttempts.toNat

/-- Store the copy of the state. -/
def swapState (conflict : String) : M B Unit := do
  let p ← getThe PassState
  let body : B ← marshalState p.state r.opts.streamID p.state.partition
  let answer : Except Err (Object B × Bool) ← perform (.cas (r.path p.state.partition) p.token body)
  let (obj, swapped) ← ofExcept answer
  if swapped then modify fun p => { p with token := obj.token } else throw (leaseLost conflict)

def saveState : M B Unit := do
  let now : Int ← now
  setState fun state => { state with
    ownerID := r.owner
    leaseUntilMS := unixMilli (now + r.opts.leaseDuration)
    updatedMS := unixMilli now }
  swapState r "state CAS conflict"

def release : M B Unit := do
  setState fun state => { state with ownerID := "", leaseUntilMS := 0 }
  let now : Int ← now
  setState fun state => { state with updatedMS := unixMilli now }
  swapState r "release CAS conflict"

def checkLease : M B Unit := do
  let state ← getState
  if state.ownerID ≠ r.owner then throw (leaseLost s!"owner={r.owner} current={state.ownerID}")
  let now : Int ← now
  if state.leaseUntilMS ≤ unixMilli now then throw (leaseLost s!"lease expired at={state.leaseUntilMS}")

end

end ObjLog.Lifecycle
