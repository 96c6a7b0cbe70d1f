import ObjLog.Keylayout
import ObjLog.Pmeta
/-!
# What lifecycle passes work with, `internal/lifecycle/types.go`

Options, results, the snapshots and listings a pass asks for, and the operations of
a pass on the store, the catalog, the clock and its context. Times and durations are
nanoseconds.
-/

namespace ObjLog.Lifecycle

open Lib Pmeta

structure Result where
  safeFloorLSN : UInt64
  reclaimedThroughLSN : UInt64
  scannedObjects : Int
  candidateObjects : Int
  deletedObjects : Int
  deletedBytes : UInt64
  invalidObjects : Int
  quarantinedObjects : Int
  pendingQuarantine : Int
  hasMore : Bool
deriving DecidableEq, Repr

def Result.zero : Result := ⟨0, 0, 0, 0, 0, 0, 0, 0, 0, false⟩

def invalidOptions (text : String) : Err := .of (.lifecycle .invalidOptions) text
def leaseHeld (text : String) : Err := .of (.lifecycle .leaseHeld) text
def leaseLost (text : String) : Err := .of (.lifecycle .leaseLost) text
def corruptState (text : String) : Err := .of (.lifecycle .corruptState) text

/-- The value of an option that is zero when not given. -/
def orDefault (given default : Int) : Int := if given = 0 then default else given

theorem orDefault_pos {given default : Int} (h : ¬given < 0) (hd : 0 < default) : 0 < orDefault given default := by
  unfold orDefault
  split <;> omega

/-! ## Options -/

structure Options where
  streamID : String
  catalogPrefix : String
  ownerID : Arr 16
  deleteDelay : Int
  maxPassDuration : Int
  listPageSize : Int
  maxObjectsPerRun : Int
  maxDeletesPerRun : Int
  maxDeleteBytes : UInt64
  deleteBatchSize : Int
  deleteConcurrency : Int
  deleteRateLimiter : Bool
  maxQuarantine : Int
  casAttempts : Int
  dryRun : Bool
deriving DecidableEq

def millisecond : Int := 1000000

/-- `blobstore.MaxListLimit`. -/
def maxListLimit : Int := 1000

def maxQuarantineEntries : Int := 1000

/-- The given owner, or a random one. -/
def Options.owner (opts : Options) (randomOwnerID : Except Err (Arr 16)) : Except Err (Arr 16) :=
  if opts.ownerID = .zero 16 then restate randomOwnerID (.within "lifecycle: generate owner id") else .ok opts.ownerID

def newReclaimer (opts : Options) (randomOwnerID : Except Err (Arr 16)) : Except Err Options := do
  let streamID ← restate (Keylayout.canonicalStreamID opts.streamID) (.under (.lifecycle .invalidOptions))
  failIf (opts.deleteDelay < 0) (invalidOptions "negative delete delay")
  failIf (opts.maxPassDuration < 0) (invalidOptions "negative max pass duration")
  let maxPassDuration := orDefault opts.maxPassDuration 20000000000
  failIf (maxPassDuration < millisecond) (invalidOptions s!"max pass duration={maxPassDuration} below 1ms")
  failIf (maxPassDuration > (2 ^ 63 - 1) / 3)
    (invalidOptions s!"max pass duration={maxPassDuration} overflows lease duration")
  failIf (opts.listPageSize < 0) (invalidOptions "negative list page size")
  let listPageSize := orDefault opts.listPageSize 1000
  failIf (listPageSize > maxListLimit) (invalidOptions s!"list page size={listPageSize} max={maxListLimit}")
  failIf (opts.maxObjectsPerRun < 0 ∨ opts.maxDeletesPerRun < 0) (invalidOptions "negative run budget")
  failIf (opts.deleteBatchSize < 0 ∨ opts.deleteBatchSize > maxListLimit)
    (invalidOptions s!"delete batch size={opts.deleteBatchSize} range=0..{maxListLimit}")
  failIf (opts.deleteConcurrency < 0) (invalidOptions "negative delete concurrency")
  failIf (opts.maxQuarantine < 0 ∨ opts.maxQuarantine > maxQuarantineEntries)
    (invalidOptions s!"max quarantine={opts.maxQuarantine} range=0..{maxQuarantineEntries}")
  failIf (opts.casAttempts < 0) (invalidOptions "negative CAS attempts")
  let ownerID ← opts.owner randomOwnerID
  return { opts with
    streamID := streamID
    ownerID := ownerID
    deleteDelay := orDefault opts.deleteDelay 86400000000000
    maxPassDuration := maxPassDuration
    listPageSize := listPageSize
    maxObjectsPerRun := orDefault opts.maxObjectsPerRun 10000
    maxDeletesPerRun := orDefault opts.maxDeletesPerRun 1000
    maxDeleteBytes := if opts.maxDeleteBytes = 0 then 1073741824 else opts.maxDeleteBytes
    deleteBatchSize := orDefault opts.deleteBatchSize 1000
    deleteConcurrency := orDefault opts.deleteConcurrency 16
    maxQuarantine := orDefault opts.maxQuarantine 256
    casAttempts := orDefault opts.casAttempts 8 }

def Options.leaseDuration (opts : Options) : Int := 3 * opts.maxPassDuration

/-- What the passes rely on of options that were accepted. -/
structure Options.Accepted (opts : Options) : Prop where
  listPageSize : 0 < opts.listPageSize ∧ opts.listPageSize ≤ maxListLimit
  maxObjectsPerRun : 0 < opts.maxObjectsPerRun
  maxDeletesPerRun : 0 < opts.maxDeletesPerRun
  deleteBatchSize : 0 < opts.deleteBatchSize
  maxQuarantine : 0 < opts.maxQuarantine ∧ opts.maxQuarantine ≤ maxQuarantineEntries

theorem newReclaimer_ok {opts made : Options} {randomOwnerID : Except Err (Arr 16)}
    (h : newReclaimer opts randomOwnerID = .ok made) : made.Accepted := by
  simp only [newReclaimer, checks_ok] at h
  obtain ⟨streamID, -, -, -, -, -, hlist, hlistMax, hruns, hbatch, -, hquarantine, -, ownerID, -, rfl⟩ := h
  simp only [not_or] at hruns hbatch hquarantine
  refine ⟨⟨orDefault_pos hlist (by decide), Int.not_lt.1 hlistMax⟩, orDefault_pos hruns.1 (by decide),
    orDefault_pos hruns.2 (by decide), orDefault_pos hbatch.1 (by decide),
    ⟨orDefault_pos hquarantine.1 (by decide), ?_⟩⟩
  dsimp only
  unfold orDefault
  split
  · decide
  · exact Int.not_lt.1 hquarantine.2

/-! ## Listings and snapshots -/

/-- `blobstore.ObjectInfo`; no time of creation is the zero time. -/
structure ObjectInfo where
  key : String
  sizeBytes : Int
  createdAt : Option Int
deriving DecidableEq

structure ListOptions where
  listPrefix : String
  afterKey : String
  limit : Int
deriving DecidableEq

structure ObjectPage where
  objects : List ObjectInfo
  nextAfterKey : String
  hasMore : Bool
deriving DecidableEq

/-- `catalogblob.MaintenanceSnapshot`. -/
structure MaintenanceSnapshot where
  head : PartitionHead
  generation : UInt64
  maxIndexLevel : UInt8
deriving DecidableEq

/-- `catalogblob.MaintenancePage`. -/
structure MaintenancePage where
  paths : List String
  nextSeqLo : UInt64
  hasMore : Bool
deriving DecidableEq

/-- `Time.UnixMilli`. -/
def unixMilli (t : Int) : Int := t / millisecond

/-- `time.UnixMilli`. -/
def timeFromUnixMilli (ms : Int) : Int := ms * millisecond

def objectSize (info : ObjectInfo) : UInt64 := if info.sizeBytes ≤ 0 then 0 else UInt64.ofNat info.sizeBytes.toNat

def oldEnough (createdAt : Option Int) (now delay : Int) : Bool :=
  createdAt.any fun t => t ≤ now && t + delay ≤ now

end ObjLog.Lifecycle
