import ObjLog.Lib.Triple
import ObjLog.Sink.Multipart
/-!
# Committing a multipart session on GCS, `blob/sink/gcs/gcs.go`

A commit composes the staged parts into the final object. One request takes at most
`composeSourceLimit` sources, so more parts are first composed in groups, level by level.
`requests` is history: no program reads it.
-/

namespace ObjLog.Gcs

open Lib Multipart

def composeSourceLimit : Nat := 32

def limits : Limits := ⟨0, 5497558138880, 10000, 5497558138880⟩

/-- `gcsObject`. -/
structure Object where
  key : String
  generation : Int
  size : UInt64
deriving DecidableEq

/-- `gcsPart`; a commit does not look at the checksum and the channel. -/
structure GcsPart where
  object : Object
  receipt : Receipt
  complete : Bool
deriving DecidableEq

/-- A compose request. -/
structure Request where
  dst : String
  sources : List (String × Int)
deriving DecidableEq

structure Session where
  key : String
  opts : Options
  parts : List (Nat × GcsPart)
  staging : List (String × Object)
  committing : Bool
  committed : Option ObjectAttrs
  cleaning : Bool
  cleaned : Bool
  requests : List Request
deriving DecidableEq

/-- An error with what `errors.As` and `errors.Is` find in it of the storage client. -/
structure Failure where
  err : Err
  code : Option Nat
  notExist : Bool

def Failure.ofErr (err : Err) : Failure := ⟨err, none, false⟩

/-- The attributes of an object that the client reports. -/
structure Attrs where
  name : String
  generation : Int
  size : Int
  metadata : Metadata

inductive Op where
  | newAttemptID
  | compose (dst : String) (sources : List (String × Int)) (contentType : String) (metadata : Metadata)
  | attrs (key : String)
  | ctxErr
  | delete (key : String) (generation : Int)

def Op.Answer : Op → Type
  | newAttemptID => Except Err String
  | compose .. | attrs _ => Except Failure Attrs
  | ctxErr => Option Err
  | delete .. => Except Failure Unit

abbrev M := ExceptT Failure (StateT Session (Prog Op Op.Answer))

def call (op : Op) : M op.Answer := ExceptT.mk (StateT.lift (Except.ok <$> Prog.perform op))

def fail {α : Type} (err : Err) : M α := throw (.ofErr err)

def mapError (e : Failure) : Err :=
  match e.code with
  | some 404 => .under (.multipart .cleaned) e.err
  | some 412 => .under (.multipart .preconditionFailed) e.err
  | _ => e.err

/-! ## Beginning a commit -/

/-- The loop of `beginCommit` over the receipts. -/
def receiptSources (parts : List (Nat × GcsPart)) : List Receipt → Except Err (List Object)
  | [] => .ok []
  | receipt :: receipts =>
    match parts.lookup receipt.number with
    | some part => do
      failIf (¬part.complete ∨ part.receipt ≠ receipt)
        (.of (.multipart .partConflict) s!"receipt mismatch for gcs part {receipt.number}")
      let sources ← receiptSources parts receipts
      pure (part.object :: sources)
    | none => .error (.of (.multipart .partConflict) s!"receipt mismatch for gcs part {receipt.number}")

/-- The sources, or the attributes of what an earlier call committed. -/
def beginCommit (s : Session) (request : CommitRequest) : Except Err (List Object ⊕ ObjectAttrs) := do
  failIf (s.cleaned ∨ s.cleaning) (.bare (.multipart .cleaned))
  match s.committed with
  | some attrs => do
    failIf (attrs.sizeBytes ≠ request.sizeBytes ∨
        request.objectSHA256 ≠ .zero 32 ∧ attrs.objectSHA256 ≠ request.objectSHA256)
      (.bare (.multipart .preconditionFailed))
    pure (.inr attrs)
  | none => do
    failIf s.committing (.bare (.multipart .commitInProgress))
    failIf (s.parts.length ≠ request.receipts.length) (.of (.multipart .partConflict)
      s!"session has {s.parts.length} parts but commit has {request.receipts.length} receipts")
    let sources ← receiptSources s.parts request.receipts
    pure (.inl sources)

def endCommit (attrs : Option ObjectAttrs) (s : Session) : Session :=
  match attrs with
  | some attrs => { s with committing := false, committed := some attrs, parts := [] }
  | none => { s with committing := false }

/-! ## Staging -/

def trackStaging (object : Object) (s : Session) : Session :=
  { s with staging := (object.key, object) :: s.staging.filter (·.1 ≠ object.key) }

/-- Intermediate objects are tracked, the final one is not. -/
def trackIntermediate (object : Object) (dstKey : String) (s : Session) : Session :=
  if dstKey ≠ s.key then trackStaging object s else s

def removeStaging (objects : List Object) (s : Session) : Session :=
  { s with staging := s.staging.filter fun e => ¬objects.any fun o => o.key = e.1 ∧ o.generation = e.2.generation }

/-- `deleteGCSObject`; generation 0 asks for no generation in particular. -/
def deleteObject (object : Object) : M (Option Err) :=
  if object.key = "" then pure none
  else do
    match ← call (.delete object.key object.generation) with
    | .ok () => pure none
    | .error e => pure (if e.notExist then none else some (mapError e))

/-- `deleteGCSObjects` with the first error so far. -/
def deleteObjects (firstErr : Option Err) : List Object → M (Option Err)
  | [] => pure firstErr
  | object :: objects => do
    match ← call .ctxErr with
    | some err => pure (firstErr.or (some err))
    | none => do
      let err ← deleteObject object
      deleteObjects (firstErr.or err) objects

def cleanupStaging : M (Option Err) := do
  let s ← getThe Session
  let staging := s.staging.map (·.2)
  match ← deleteObjects none staging with
  | some err => pure (some err)
  | none => do
    modify (removeStaging staging)
    pure none

/-! ## Composing -/

def composeTo (dstKey : String) (sources : List Object) (metadata : Metadata) : M Object := do
  let s ← getThe Session
  let size := sources.foldl (fun size source => size + source.size) 0
  let handles := sources.map fun source => (source.key, source.generation)
  modify fun s => { trackIntermediate ⟨dstKey, 0, size⟩ dstKey s with requests := s.requests ++ [⟨dstKey, handles⟩] }
  match ← call (.compose dstKey handles s.opts.contentType metadata) with
  | .error e => throw e
  | .ok attrs => do
    let object : Object :=
      ⟨if attrs.name = "" then dstKey else attrs.name, attrs.generation,
        if attrs.size ≥ 0 then UInt64.ofNat attrs.size.toNat else size⟩
    modify (trackIntermediate object dstKey)
    pure object

/-- Where group `group` of a level is composed. -/
def groupKey (root : String) (level group : Nat) : String :=
  pathJoin [root, "level-" ++ padDec 2 level, "group-" ++ padDec 6 group]

/-- The loop over the groups of one level; each turn takes sources, so there are fewer turns than sources. -/
def composeGroups (root : String) (level : Nat) : Nat → Nat → List Object → M (List Object)
  | _, _, [] => pure []
  | 0, _, _ => fail (.plain "unreachable: groups")
  | turns + 1, group, sources => do
    let s ← getThe Session
    let object ← composeTo (groupKey root level group) (sources.take composeSourceLimit) (sessionMetadata s.opts)
    let next ← composeGroups root level turns (group + 1) (sources.drop composeSourceLimit)
    pure (object :: next)

/-- The loop over the levels; each turn leaves fewer sources. -/
def composeLevels (root : String) : Nat → Nat → List Object → M (List Object)
  | turns, level, sources =>
    if sources.length ≤ composeSourceLimit then pure sources
    else match turns with
      | 0 => fail (.plain "unreachable: levels")
      | turns + 1 => do
        let next ← composeGroups root level sources.length 0 sources
        composeLevels root turns (level + 1) next

def compose (sources : List Object) (attemptID : String) (request : CommitRequest) : M Object := do
  let s ← getThe Session
  let sources ← composeLevels (stagingComposePrefix s.opts.stagingPrefix attemptID) sources.length 0 sources
  composeTo s.key sources (commitMetadata s.opts request)

/-! ## Commit -/

/-- What the final object looks like now, if there is one. -/
def reconcile (request : CommitRequest) : M (Except Err (Option ObjectAttrs)) := do
  let s ← getThe Session
  match ← call (.attrs s.key) with
  | .error e => pure (if e.notExist then .ok none else .error (mapError e))
  | .ok attrs =>
    let size := UInt64.ofNat attrs.size.toNat
    if matchesCommittedObject size attrs.metadata s.opts request true then
      pure (.ok (some ⟨s.key, size, toString attrs.generation, s.opts.sessionID, request.objectSHA256⟩))
    else pure (.error (.bare (.multipart .preconditionFailed)))

def finishCommitError (request : CommitRequest) (commitErr : Err) : M ObjectAttrs := do
  match ← reconcile request with
  | .ok (some attrs) => do
    modify (endCommit (some attrs))
    let _ ← cleanupStaging
    pure attrs
  | .ok none => do
    modify (endCommit none)
    if commitErr.is (.multipart .preconditionFailed) then fail commitErr
    else fail (.join (some (.bare (.multipart .commitIndeterminate))) commitErr)
  | .error reconcileErr => do
    modify (endCommit none)
    if reconcileErr.is (.multipart .preconditionFailed) then fail reconcileErr
    else fail (.join (some (.join (some (.bare (.multipart .commitIndeterminate))) commitErr)) reconcileErr)

/-- What `Commit` does with the outcome of `composeObjects`. -/
def finishCommit (request : CommitRequest) : Except Failure Object → M ObjectAttrs
  | .error e => finishCommitError request (mapError e)
  | .ok final => do
    let s ← getThe Session
    let attrs : ObjectAttrs := ⟨if final.key = "" then s.key else final.key, final.size, toString final.generation,
      s.opts.sessionID, request.objectSHA256⟩
    if attrs.sizeBytes ≠ request.sizeBytes then do
      modify (endCommit none)
      fail (.of (.multipart .commitIndeterminate) s!"gcs committed size={attrs.sizeBytes} want={request.sizeBytes}")
    else do
      modify (endCommit (some attrs))
      let _ ← cleanupStaging
      pure attrs

def composeAttempt (sources : List Object) (request : CommitRequest) : M ObjectAttrs := do
  match ← call .newAttemptID with
  | .error e => do
    modify (endCommit none)
    fail (.ofWithin (.multipart .invalidStore) "generate gcs commit attempt" e)
  | .ok attemptID => do
    let final ← ExceptT.lift (compose sources attemptID request).run
    finishCommit request final

def commit (request : CommitRequest) : M ObjectAttrs := do
  let s ← getThe Session
  match validateCommitRequest request limits >>= fun _ => beginCommit s request with
  | .error e => fail e
  | .ok (.inr attrs) => pure attrs
  | .ok (.inl sources) => do
    modify fun s => { s with committing := true }
    composeAttempt sources request

end ObjLog.Gcs
