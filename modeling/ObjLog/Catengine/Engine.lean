import ObjLog.Catengine.Retention
/-!
# The engine and its writer sessions, `catengine/engine.go`

`Initialize`, `Load` and `OpenWriter` are computations that may fail. A session
call also changes the session, on failure too: `SessionM` keeps the session
outside the error. A call holds the session's mutex throughout, so the calls of
one session follow one another.

The configuration of the partition and the engine's options are parameters. A
loop over attempts recurses on the attempts left.
-/

namespace ObjLog.Catengine

open Lib Catformat Pmeta Blobstore

/-- The options that decide how a session behaves; `NewEngine` makes both positive. -/
structure EngineOptions where
  acquireAttempts : Nat
  commitAttempts : Nat
  acquire_pos : 0 < acquireAttempts
  commit_pos : 0 < commitAttempts

structure RetentionCommit where
  request : RetentionRequest
  previous : Head
  mutation : Mutation
  resolved : Bool
deriving DecidableEq

structure Session where
  writerEpoch : UInt64
  writerID : Arr 16
  head : Head
  token : Token
  stale : Bool
  lastAppend : SegmentRef
  lastAppendState : PartitionHead
  hasLastAppend : Bool
  pendingRetention : Option RetentionCommit
deriving DecidableEq

def newSession (head : Head) (token : Token) : Session where
  writerEpoch := head.header.writerEpoch
  writerID := head.header.writerID
  head := head
  token := token
  stale := false
  lastAppend := .zero
  lastAppendState := .zero
  hasLastAppend := false
  pendingRetention := none

variable [Hashes]

def sameHead (left right : Head) : Bool :=
  match marshalHead left, marshalHead right with
  | .ok leftBody, .ok rightBody => leftBody = rightBody
  | _, _ => false

/-! ## Opening a partition -/

def initializePartition (config : Config) (nextLSN : UInt64) : M (PartitionHead × Bool) := do
  checkCtx
  let (head, body) ← liftM (newHead config nextLSN)
  let (object, swapped) ← compareAndSwap config.headPath 0 body
  let head ← (if swapped then pure head else liftM (config.decodeHead object.body))
  let state ← liftM (config.partitionHead head)
  pure (state, swapped)

/-- What `Load` makes of the answer of `Get`. -/
def loaded (config : Config) : Except Err Object → Except Err (Head × Token)
  | .ok object => do
    let head ← config.decodeHead object.body
    pure (head, object.token)
  | .error e =>
    if e.is .objectNotFound then do
      let (head, _) ← newHead config 0
      pure (head, 0)
    else throw e

def load (config : Config) : M (Head × Token) := do
  let answer ← attempt (Blobstore.get config.headPath)
  liftM (loaded config answer)

/-- `OpenWriter` after its last attempt. -/
def acquireUnanswered (config : Config) (writerID : Arr 16) (lastErr : Option Err) (attemptedEpoch : UInt64) :
    M Session := do
  let (observed, token) ←
    ExceptT.adapt (fun e => .ofWithin .fenceIndeterminate s!"acquire writer partition={config.partition}" (.join lastErr e))
      (load config)
  if observed.header.writerID = writerID ∧ observed.header.writerEpoch = attemptedEpoch then
    pure (newSession observed token)
  else match lastErr with
    | some e => throw (.within s!"acquire writer partition={config.partition}" e)
    | none => throw (.of .conflict s!"acquire writer partition={config.partition}")

def acquireBackoff (config : Config) (lastErr : Option Err) : M Unit :=
  ExceptT.adapt (fun e => .ofWithin .fenceIndeterminate s!"acquire writer partition={config.partition}" (.join lastErr e))
    waitBackoff

def acquire (config : Config) (writerID : Arr 16) : Nat → Head → Token → Option Err → UInt64 → M Session
  | 0, _, _, lastErr, attemptedEpoch => acquireUnanswered config writerID lastErr attemptedEpoch
  | attempts + 1, head, token, _, _ => do
    let mutation ← liftM (takeover config head writerID)
    match ← attempt (compareAndSwap config.headPath token mutation.headBody) with
    | .ok (object, swapped) =>
      if swapped ∨ object.body = mutation.headBody then pure (newSession mutation.head object.token)
      else do
        let observed ← liftM (config.decodeHead object.body)
        if attempts = 0 then throw (.of .conflict s!"acquire writer partition={config.partition}")
        else do
          acquireBackoff config none
          acquire config writerID attempts observed object.token none mutation.head.header.writerEpoch
    | .error casErr => do
      (if attempts = 0 then pure () else acquireBackoff config (some casErr))
      acquire config writerID attempts head token (some casErr) mutation.head.header.writerEpoch

def openWriter (config : Config) (opts : EngineOptions) (writerID : Arr 16) : M Session := do
  checkCtx
  let (head, token) ← load config
  acquire config writerID opts.acquireAttempts head token none 0

/-! ## Session calls -/

/-- A computation on a session. -/
abbrev SessionM := ExceptT Err (StateT Session Effects)

/-- A computation that leaves the session alone. -/
def aside {α : Type} (x : M α) : SessionM α := ExceptT.mk (StateT.lift x.run)

def ofExcept {α : Type} (x : Except Err α) : SessionM α := ExceptT.mk (pure x)

def Session.observe (s : Session) (head : Head) : Session :=
  if head.header.writerEpoch ≠ s.writerEpoch ∨ head.header.writerID ≠ s.writerID then { s with stale := true } else s

def observeFence (head : Head) : SessionM Unit := modify (·.observe head)

/-- `s.head, s.token = head, token`. -/
def setHead (head : Head) (token : Token) : SessionM Unit :=
  modify fun s => { s with head := head, token := token }

def staleWriter (config : Config) : Err := .of .staleWriter s!"partition={config.partition}"

def refreshLocked (config : Config) : SessionM Unit := do
  let (head, token) ← aside (load config)
  observeFence head
  setHead head token

def refreshActiveLocked (config : Config) : SessionM Unit := do
  let s ← getThe Session
  if s.stale then throw (staleWriter config)
  else do
    refreshLocked config
    let s ← getThe Session
    if s.stale then throw (staleWriter config) else pure ()

def putPages : List PageObject → M Unit
  | [] => pure ()
  | page :: pages => do
    let _ ← ExceptT.adapt (Err.within s!"catengine: put immutable page {page.key.quote}") (put page.key page.body)
    putPages pages

def retentionApplied (observed : Head) (mutation : Mutation) : Bool :=
  observed.header.appliedRetentionVersion ≥ mutation.head.header.appliedRetentionVersion ∧
    observed.header.oldestLSN ≥ mutation.head.header.oldestLSN

/-! ### Committing a mutation -/

/-- A failed comparison. The result is the state to return, or nothing where the
head is still the one the mutation was built on and an attempt is left. -/
def settle (config : Config) (previous : Head) (mutation : Mutation) (applied : Head → M Bool) (object : Object)
    (last : Bool) : SessionM (Option PartitionHead) := do
  let observed ← ofExcept (config.decodeHead object.body)
  observeFence observed
  let ok ← aside (applied observed)
  if object.body = mutation.headBody then do
    setHead observed object.token
    let state ← ofExcept (config.partitionHead observed)
    pure (some state)
  else if ok then do
    setHead observed object.token
    let state ← ofExcept (config.partitionHead mutation.head)
    pure (some state)
  else do
    let s ← getThe Session
    if s.stale then throw (staleWriter config)
    else if sameHead previous observed then
      if last then throw (.of .conflict s!"head CAS conflict partition={config.partition}") else pure none
    else throw (.of .conflict s!"head changed partition={config.partition}")

/-- `commitLocked` after its last attempt. -/
def commitUnanswered (config : Config) (previous : Head) (mutation : Mutation) (applied : Head → M Bool)
    (lastErr : Option Err) : SessionM PartitionHead := do
  let (observed, token) ← aside (ExceptT.adapt
    (fun e => .ofWithin .commitIndeterminate s!"partition={config.partition}" (.join lastErr e)) (load config))
  observeFence observed
  let ok ← aside (applied observed)
  if ok then do
    setHead observed token
    ofExcept (config.partitionHead mutation.head)
  else do
    let s ← getThe Session
    if s.stale then throw (staleWriter config)
    else match sameHead previous observed, lastErr with
      | true, some e => throw e
      | _, _ => throw (.of .conflict s!"partition={config.partition}")

def commitBackoff (config : Config) (lastErr : Option Err) : SessionM Unit :=
  aside (ExceptT.adapt (fun e => .ofWithin .commitIndeterminate s!"partition={config.partition}" (.join lastErr e))
    waitBackoff)

def commitLoop (config : Config) (previous : Head) (mutation : Mutation) (applied : Head → M Bool) :
    Nat → Token → Option Err → SessionM PartitionHead
  | 0, _, lastErr => commitUnanswered config previous mutation applied lastErr
  | attempts + 1, expected, _ => do
    match ← aside (attempt (compareAndSwap config.headPath expected mutation.headBody)) with
    | .ok (object, true) => do
      setHead mutation.head object.token
      ofExcept (config.partitionHead mutation.head)
    | .ok (object, false) => do
      match ← settle config previous mutation applied object (attempts = 0) with
      | some state => pure state
      | none => do
        commitBackoff config none
        commitLoop config previous mutation applied attempts object.token none
    | .error casErr => do
      (if attempts = 0 then pure () else commitBackoff config (some casErr))
      commitLoop config previous mutation applied attempts expected (some casErr)

def commitLocked (config : Config) (opts : EngineOptions) (previous : Head) (mutation : Mutation)
    (applied : Head → M Bool) : SessionM PartitionHead := do
  let s ← getThe Session
  commitLoop config previous mutation applied opts.commitAttempts s.token none

/-- Whether the observed history holds the segment at its place. -/
def appendApplied (config : Config) (segment : SegmentRef) (observed : Head) : M Bool := do
  let found ← findSegment config observed segment.baseLSN
  pure (found = some segment)

def commitAppendLocked (config : Config) (opts : EngineOptions) (previous : Head) (mutation : Mutation)
    (segment : SegmentRef) : SessionM PartitionHead :=
  commitLocked config opts previous mutation (appendApplied config segment)

def commitRetentionLocked (config : Config) (opts : EngineOptions) (previous : Head) (mutation : Mutation) :
    SessionM PartitionHead :=
  commitLocked config opts previous mutation fun observed => pure (retentionApplied observed mutation)

/-! ### Retention -/

/-- `pending.resolved = true`. -/
def markResolved (pending : RetentionCommit) : SessionM Unit :=
  modify fun s => { s with pendingRetention := some { pending with resolved := true } }

def setPending (pending : Option RetentionCommit) : SessionM Unit :=
  modify fun s => { s with pendingRetention := pending }

/-- Errors with one of these sentinels pass; any other leaves the outcome unknown. -/
def unlessKnown (known : List Sentinel) (e : Err) : Err :=
  if known.any e.is then e else .under .commitIndeterminate e

def resolveRetentionLocked (config : Config) (opts : EngineOptions) : SessionM Unit := do
  let s ← getThe Session
  match s.pendingRetention with
  | none => pure ()
  | some pending =>
    if s.stale then throw (staleWriter config)
    else do
      aside (ExceptT.adapt (.under .commitIndeterminate) checkCtx)
      if pending.resolved then pure ()
      else do
        tryCatch (refreshActiveLocked config) fun e => throw (unlessKnown [.staleWriter] e)
        let s ← getThe Session
        if retentionApplied s.head pending.mutation then markResolved pending
        else if sameHead pending.previous s.head then do
          let _ ← tryCatch (commitRetentionLocked config opts pending.previous pending.mutation) fun e =>
            throw (unlessKnown [.staleWriter, .conflict] e)
          let s ← getThe Session
          if s.stale then throw (staleWriter config) else markResolved pending
        else throw (.of .conflict s!"head changed during retention reconciliation partition={config.partition}")

def acknowledgeRetentionLocked (config : Config) (opts : EngineOptions) : SessionM RetentionApplyResult := do
  resolveRetentionLocked config opts
  let s ← getThe Session
  let state ← ofExcept (config.partitionHead s.head)
  match s.pendingRetention with
  | none => throw (.plain "panic: nil pendingRetention")
  | some pending => do
    setPending none
    pure ⟨state, pending.request, true⟩

/-- The state and whether this call made the request durable. -/
def applyRetentionLocked (config : Config) (opts : EngineOptions) (request : RetentionRequest) :
    SessionM (PartitionHead × Bool) := do
  let s ← getThe Session
  let mutation ← aside (applyRetention config s.head request.beforeLSN request.policyVersion)
  if mutation.head.header.generation = s.head.header.generation then do
    let state ← ofExcept (config.partitionHead s.head)
    setPending none
    pure (state, s.pendingRetention.isSome)
  else do
    aside (putPages mutation.pages)
    setPending (some ⟨request, s.head, mutation, false⟩)
    let state ← tryCatch (commitRetentionLocked config opts s.head mutation) fun e => do
      (if e.is .commitIndeterminate then pure () else setPending s.pendingRetention)
      throw e
    setPending none
    pure (state, true)

def applyPendingRetention (config : Config) (opts : EngineOptions) (request : RetentionRequest) (found : Bool) :
    SessionM RetentionApplyResult := do
  aside checkCtx
  let s ← getThe Session
  if s.pendingRetention.isSome then acknowledgeRetentionLocked config opts
  else do
    refreshActiveLocked config
    let s ← getThe Session
    if !found ∨ request.policyVersion ≤ s.head.header.appliedRetentionVersion then do
      let state ← ofExcept (config.partitionHead s.head)
      pure ⟨state, request, false⟩
    else do
      let (state, applied) ← applyRetentionLocked config opts request
      pure ⟨state, request, applied⟩

/-- The result, and whether there was one to reconcile. -/
def reconcilePendingRetention (config : Config) (opts : EngineOptions) : SessionM (RetentionApplyResult × Bool) := do
  let s ← getThe Session
  if s.pendingRetention.isSome then do
    let result ← acknowledgeRetentionLocked config opts
    pure (result, true)
  else pure (.zero, false)

/-! ### Appending -/

/-- A retry of the segment at the tip of the cached head. -/
def acknowledgeTip (config : Config) (segment : SegmentRef) : SessionM PartitionHead := do
  let s ← getThe Session
  let acknowledged ←
    (if !s.hasLastAppend ∨ s.lastAppend ≠ segment then ofExcept (config.partitionHead s.head)
    else pure s.lastAppendState)
  refreshLocked config
  let s ← getThe Session
  if segment.baseLSN < s.head.header.oldestLSN then
    throw (.of .commitIndeterminate
      s!"segment base_lsn={segment.baseLSN} is below oldest_lsn={s.head.header.oldestLSN}")
  else do
    let observed ← aside (findSegment config s.head segment.baseLSN)
    if observed = some segment then pure acknowledged
    else throw (.of .commitIndeterminate "idempotent segment cannot be reconciled")

/-- The answer of a stale session, from its last acknowledged append. -/
def acknowledgeStale (config : Config) (segment : SegmentRef) (s : Session) : Except Err PartitionHead :=
  if s.hasLastAppend ∧ s.lastAppend = segment then
    if segment.baseLSN < s.head.header.oldestLSN then
      throw (.of .commitIndeterminate
        s!"segment base_lsn={segment.baseLSN} is below oldest_lsn={s.head.header.oldestLSN}")
    else pure s.lastAppendState
  else throw (staleWriter config)

def appendSegment (config : Config) (opts : EngineOptions) (segment : SegmentRef) : SessionM PartitionHead := do
  aside checkCtx
  let s ← getThe Session
  if s.stale then ofExcept (acknowledgeStale config segment s)
  else do
    resolveRetentionLocked config opts
    let s ← getThe Session
    if s.head.hasLastSegment ∧ config.segmentRef s.head.lastSegment = segment then acknowledgeTip config segment
    else do
      let mutation ← ofExcept (append config s.head segment)
      aside (putPages mutation.pages)
      let state ← commitAppendLocked config opts s.head mutation segment
      modify fun s => { s with lastAppend := segment, lastAppendState := state, hasLastAppend := true }
      pure state

end ObjLog.Catengine
