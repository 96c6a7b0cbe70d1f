import ObjLog.Blob.Paths
import ObjLog.Blobstore
/-!
# The retention mailbox, `blob/retention.go`

One mutable object for each partition holds the latest retention request as
JSON. `requestRetention` replaces it by compare-and-swap.

The JSON encoding is `encoding/json`'s, the field of `Json`: all that is used of
it is that it reads back what it wrote.
-/

namespace ObjLog.Pmeta

def retentionRequestVersion : UInt16 := 1

/-- `RetentionRequest.Validate`, `catalog/types.go`. -/
def RetentionRequest.validate (r : RetentionRequest) : Except Err Unit := do
  failIf (r.version ≠ retentionRequestVersion)
    (.of .invalidRequest s!"retention version={r.version} want={retentionRequestVersion}")
  failIf (r.policyVersion = 0) (.of .invalidRequest "empty retention policy_version")
  failIf (r.createdUnixMS < 0) (.of .invalidRequest s!"negative retention created_unix_ms={r.createdUnixMS}")

end ObjLog.Pmeta

namespace ObjLog.Blob

open Lib Pmeta Blobstore

structure RetentionFile where
  version : UInt16
  streamID : String
  partition : UInt32
  policyVersion : UInt64
  beforeLSN : UInt64
  createdUnixMS : Int64
deriving DecidableEq

/-- `encoding/json` on a retention file; `unmarshal` fails with the text of its error. -/
class Json where
  marshal : RetentionFile → Bytes
  unmarshal : Bytes → Except String RetentionFile
  unmarshal_marshal : ∀ file, unmarshal (marshal file) = .ok file

/-- The options of a catalog that the mailbox uses. -/
structure Options where
  catalogPrefix : String
  streamID : String
  writerCommitMaxAttempts : Nat

def retentionRequestPath [Hashes] (catalogPrefix streamID : String) (partition : UInt32) : String :=
  partitionPrefix catalogPrefix streamID partition ++ "/maintenance/retention.json"

def RetentionFile.request (f : RetentionFile) : RetentionRequest :=
  ⟨f.version, f.policyVersion, f.beforeLSN, f.createdUnixMS⟩

section
variable [Json]

def decodeRetentionFile (body : Bytes) (streamID : String) (partition : UInt32) : Except Err RetentionFile := do
  let file ← match Json.unmarshal body with
    | .ok file => pure file
    | .error text => throw (.of .corruptCatalog s!"decode retention partition={partition}: {text}")
  failIf (file.streamID ≠ streamID)
    (.of .corruptCatalog ("retention stream_id=" ++ file.streamID.quote ++ " want=" ++ streamID.quote))
  failIf (file.partition ≠ partition)
    (.of .corruptCatalog s!"retention partition={file.partition} want={partition}")
  restate file.request.validate fun e => .of .corruptCatalog e.text
  pure file

/-- `none` where the request moves the mailbox on. -/
def compareRetentionRequest (current requested : RetentionRequest) : Option (Except Err RetentionRequest) :=
  if current.policyVersion = requested.policyVersion ∧ current.beforeLSN = requested.beforeLSN then some (.ok current)
  else if requested.policyVersion ≤ current.policyVersion then
    some (.error (.of .retentionRegression
      s!"policy_version={requested.policyVersion} current={current.policyVersion}"))
  else if requested.beforeLSN < current.beforeLSN then
    some (.error (.of .retentionRegression s!"before_lsn={requested.beforeLSN} current={current.beforeLSN}"))
  else none

variable [Hashes]

/-- `none` where there is no file yet. -/
def loadRetentionFile (opts : Options) (partition : UInt32) : M (Option (RetentionFile × Token)) := do
  match ← attempt (get (retentionRequestPath opts.catalogPrefix opts.streamID partition)) with
  | .error e => if e.is .objectNotFound then pure none else throw e
  | .ok obj =>
    let file ← decodeRetentionFile obj.body opts.streamID partition
    pure (some (file, obj.token))

def loadRetentionRequest (opts : Options) (partition : UInt32) : M (Option RetentionRequest) := do
  checkCtx
  let loaded ← loadRetentionFile opts partition
  pure (loaded.map fun l => l.1.request)

/-- The answer that an observed file gives to the request, or what comes after it. -/
def answerFrom (observed : Option RetentionFile) (request : RetentionRequest) (otherwise : M RetentionRequest) :
    M RetentionRequest :=
  match observed with
  | none => otherwise
  | some file =>
    match compareRetentionRequest file.request request with
    | some answer => liftM answer
    | none => otherwise

def requestIndeterminate (partition : UInt32) (lastCASErr : Option Err) (e : Err) : Err :=
  .ofWithin .commitIndeterminate s!"request retention partition={partition}" (.join lastCASErr e)

/-- After the last attempt. -/
def requestUnswapped (opts : Options) (partition : UInt32) (request : RetentionRequest) (lastCASErr : Option Err) :
    M RetentionRequest := do
  let loaded ← ExceptT.adapt (requestIndeterminate partition lastCASErr) (loadRetentionFile opts partition)
  answerFrom (loaded.map (·.1)) request <|
    match lastCASErr with
    | some e => throw (.within s!"request retention partition={partition}" e)
    | none => throw (.of .conflict s!"retention request CAS did not apply partition={partition}")

/-- The wait between two attempts; there is none after the last. -/
def requestBackoff (partition : UInt32) (lastCASErr : Option Err) (left : Nat) : M Unit :=
  if left = 0 then pure () else ExceptT.adapt (requestIndeterminate partition lastCASErr) waitBackoff

/-- The attempts left, with the token and the error of the last one. -/
def requestAttempts (opts : Options) (partition : UInt32) (request : RetentionRequest) (body : Bytes) :
    Nat → Token → Option Err → M RetentionRequest
  | 0, _, lastCASErr => requestUnswapped opts partition request lastCASErr
  | left + 1, token, _ => do
    let next (token : Token) (lastCASErr : Option Err) : M RetentionRequest := do
      requestBackoff partition lastCASErr left
      requestAttempts opts partition request body left token lastCASErr
    match ← attempt (compareAndSwap (retentionRequestPath opts.catalogPrefix opts.streamID partition) token body) with
    | .error e => next token (some e)
    | .ok (_, true) => pure request
    | .ok (obj, false) =>
      let observed ← decodeRetentionFile obj.body opts.streamID partition
      answerFrom (some observed) request (next obj.token none)

def requestRetention (opts : Options) (partition : UInt32) (request : RetentionRequest) : M RetentionRequest := do
  checkCtx
  request.validate
  let loaded ← loadRetentionFile opts partition
  answerFrom (loaded.map (·.1)) request <|
    -- the empty token where there is no file
    let token := (loaded.map (·.2)).getD 0
    let candidate : RetentionFile := ⟨request.version, opts.streamID, partition, request.policyVersion,
      request.beforeLSN, request.createdUnixMS⟩
    requestAttempts opts partition request (Json.marshal candidate) opts.writerCommitMaxAttempts token none

end

/-! ## What the decoder and the comparison say -/

theorem decodeRetentionFile_marshal [Json] {streamID : String} {partition : UInt32} {request : RetentionRequest}
    (h : request.validate = .ok ()) :
    decodeRetentionFile (Json.marshal ⟨request.version, streamID, partition, request.policyVersion, request.beforeLSN,
        request.createdUnixMS⟩) streamID partition =
      .ok ⟨request.version, streamID, partition, request.policyVersion, request.beforeLSN, request.createdUnixMS⟩ := by
  simp only [decodeRetentionFile, Json.unmarshal_marshal, checks_ok]
  exact ⟨_, rfl, by simp, by simp, h, rfl⟩

/-- The three answers of a comparison. -/
theorem compareRetentionRequest_cases (current requested : RetentionRequest) :
    (compareRetentionRequest current requested = some (.ok current) ∧
      current.policyVersion = requested.policyVersion ∧ current.beforeLSN = requested.beforeLSN) ∨
    (∃ e, compareRetentionRequest current requested = some (.error e) ∧ e.is .retentionRegression = true) ∨
    (compareRetentionRequest current requested = none ∧
      current.policyVersion < requested.policyVersion ∧ current.beforeLSN ≤ requested.beforeLSN) := by
  unfold compareRetentionRequest
  split
  · rename_i h
    exact .inl ⟨rfl, h⟩
  split
  · exact .inr (.inl ⟨_, rfl, rfl⟩)
  rename_i hpolicy
  split
  · exact .inr (.inl ⟨_, rfl, rfl⟩)
  rename_i hbefore
  exact .inr (.inr ⟨rfl, UInt64.not_le.1 hpolicy, UInt64.not_lt.1 hbefore⟩)

end ObjLog.Blob
