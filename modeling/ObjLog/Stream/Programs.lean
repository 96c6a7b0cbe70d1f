import ObjLog.Lib.Crowd
import ObjLog.Stream.Upload
/-!
# The multipart stream's programs, `blob/sink/stream/stream.go`

`Write`, `Commit`, `Abort`, one turn of `uploadWorker` and `finishAbort`, and the
system in which any number of callers run them.
-/

namespace ObjLog.Stream

open Lib Multipart

abbrev P := Prog Op Op.Answer

/-- Perform one operation. -/
def op (e : Op) : P e.Answer := Prog.perform e

def recordFailure (err : Err) : P Unit := do
  match ← op (.recordFailure err) with
  | none => pure ()
  | some firstErr => op (.cancel firstErr)

def enqueueActiveLocked (ctx : Nat) : P (Option Err) := do
  match ← op (.enqueue ctx) with
  | .sent => pure none
  | .ctx err => pure (some err)
  | .cancelled => do
    let failure ← op .failure
    pure (some failure)

/-! ## Write -/

def failWriteLocked (input : Bytes) (err : Err) (accepted : Bool) : P (Option Err) :=
  if accepted = false then do
    let failure ← op .failure
    match ← op .cause with
    | some _ => pure (some failure)
    | none => pure (some err)
  else do
    recordFailure err
    op .discard
    op (.tore input)
    pure (some err)

/-- A turn of the loop of `Write` once there is a buffer: how much of the data it took. -/
def fillActive (ctx : Nat) (data : Bytes) : P (Nat × Option Err) := do
  let (n, full) : Nat × Bool ← op (.copyIn data)
  if full then do
    let err ← enqueueActiveLocked ctx
    pure (n, err)
  else pure (n, none)

/-- The loop of `Write` on what is left of the input. Every turn takes at least one byte, so as many turns as bytes are
enough: `Write` does not get to the case without turns. -/
def writeLoop (ctx : Nat) (input : Bytes) : Nat → Bytes → Bool → P (Option Err)
  | _, [], _ => do
    op (.wrote input)
    pure none
  | 0, _ :: _, _ => pure none
  | turns + 1, data, accepted => do
    match ← op (.acquire ctx) with
    | .error err => failWriteLocked input err accepted
    | .ok _ => do
      match ← fillActive ctx data with
      | (_, some err) => failWriteLocked input err true
      | (n, none) => writeLoop ctx input turns (data.drop n) true

def writeLocked (ctx : Nat) (data : Bytes) : P (Option Err) := do
  match ← op .writeState with
  | some err => pure (some err)
  | none => do
    match ← op (.growth data.length) with
    | some err => pure (some err)
    | none => writeLoop ctx data data.length data false

def write (ctx : Nat) (data : Bytes) : P (Option Err) := do
  match ← op (.ctxErr ctx) with
  | some err => pure (some err)
  | none => do
    op .lockWrite
    let err ← writeLocked ctx data
    op .unlockWrite
    pure err

/-! ## Commit -/

/-- The state, the attributes and the error `beginSealLocked` returns. -/
structure Sealed where
  state : UploadState
  attrs : ObjectAttrs
  err : Option Err

/-- `beginSealLocked` when the last part could not be sent. -/
def unsealJobs (err : Err) : P Sealed := do
  let state : UploadState ← op .reopen
  if state = .failed then do
    op .discard
    let failure ← op .failure
    pure ⟨state, ObjectAttrs.zero, some failure⟩
  else if state = .aborting ∨ state = .aborted then do
    op .discard
    pure ⟨state, ObjectAttrs.zero, some errAborted⟩
  else pure ⟨.opened, ObjectAttrs.zero, some err⟩

/-- `beginSealLocked` when the last part was sent. -/
def finishSeal : P Sealed := do
  op .closeJobs
  let (state, err) : UploadState × Option Err ← op .finishSeal
  if state = .failed then pure ⟨state, ObjectAttrs.zero, err⟩
  else if state = .aborting ∨ state = .aborted then pure ⟨state, ObjectAttrs.zero, some errAborted⟩
  else pure ⟨state, ObjectAttrs.zero, none⟩

/-- `beginSealLocked` once the state lets it seal the stream. -/
def sealJobs (ctx : Nat) : P Sealed := do
  let jobsClosed : Bool ← op .jobsClosed
  if jobsClosed = true then pure ⟨.sealed, ObjectAttrs.zero, none⟩
  else do
    match ← enqueueActiveLocked ctx with
    | some err => unsealJobs err
    | none => finishSeal

def beginSealLocked (ctx : Nat) : P Sealed := do
  match ← op .beginSeal with
  | .stop state attrs err => pure ⟨state, attrs, err⟩
  | .failed err => do
    op .discard
    pure ⟨.failed, ObjectAttrs.zero, err⟩
  | .go => sealJobs ctx

/-- `Commit` from the call of the session on. -/
def commitParts (receipts : List Receipt) : P (Except Err ObjectAttrs) := do
  let request ← op (.commitBegin receipts)
  let answer ← op (.commitEnd request)
  let offset : UInt64 ← op .offset
  let result := checkAttrs offset answer
  op (.settle result)
  op (.cancel (settleCause result))
  pure (settleReply result)

/-- `Commit` once the stream is sealed. -/
def commitSealed (ctx : Nat) : P (Except Err ObjectAttrs) := do
  match ← op (.waitDone ctx) with
  | some ctxErr => do
    let partErr ← op .firstErr
    pure (.error (.join partErr ctxErr))
  | none => do
    match ← op (.startCommit ctx) with
    | .error err => pure (.error err)
    | .ok receipts => commitParts receipts

def commitLocked (ctx : Nat) : P (Except Err ObjectAttrs) := do
  op .lockWrite
  let r ← beginSealLocked ctx
  op .unlockWrite
  match r.err with
  | some err => pure (.error err)
  | none => if r.state = .completed then pure (.ok r.attrs) else commitSealed ctx

def commit (ctx : Nat) : P (Except Err ObjectAttrs) := do
  op .lockCommit
  let result ← commitLocked ctx
  op .unlockCommit
  pure result

/-! ## Abort -/

/-- Which of its returns `Abort` took: nothing to abort, a commit in progress, the end of its context, or the result of a
cleanup. -/
inductive AbortReply where
  | committed
  | commitInProgress
  | gaveUp (err : Err)
  | cleaned (err : Option Err)
deriving DecidableEq

def AbortReply.err : AbortReply → Option Err
  | committed => none
  | commitInProgress => some errCommitInProgress
  | gaveUp err => some err
  | cleaned err => err

def waitAbort (ctx : Nat) (done : Option Nat) : P AbortReply := do
  match ← op (.waitChannel done ctx) with
  | some err => pure (.gaveUp err)
  | none => do
    let err ← op .abortErr
    pure (.cleaned err)

def abortClaimed (ctx done : Nat) (indeterminate : Bool) : P AbortReply := do
  op (.cancel errAborted)
  op .lockWrite
  op .discard
  op .unlockWrite
  op .cleanupBegin
  let backendErr ← op .cleanupEnd
  op (.spawn backendErr indeterminate)
  waitAbort ctx (some done)

def abort (ctx : Nat) : P AbortReply := do
  match ← op .claimAbort with
  | .completed => pure .committed
  | .committing => pure .commitInProgress
  | .finished err => pure (.cleaned err)
  | .wait done => waitAbort ctx done
  | .claimed done indeterminate => abortClaimed ctx done indeterminate

def finishAbort (backendErr : Option Err) (indeterminate : Bool) : P Unit := do
  op .awaitDone
  let done ← op (.finishAbort backendErr indeterminate)
  op (.closeChannel done)

/-! ## Workers -/

/-- The checks of `uploadWorker` on a receipt. -/
def checkReceipt (job : PartJob) (part : Part) (receipt : Receipt) : Except Err Receipt := do
  failIf (receipt.number ≠ job.number) (contract s!"part={job.number} returned receipt={receipt.number}")
  failIf (receipt.sizeBytes.toNat ≠ job.used)
    (contract s!"part={job.number} receipt size={receipt.sizeBytes} want={job.used}")
  failIf (receipt.checksumSHA256 ≠ part.checksumSHA256) (contract s!"part={job.number} receipt checksum mismatch")
  return receipt

def putPart (job : PartJob) (part : Part) : P (Except Err Receipt) := do
  let sent ← op (.putBegin job)
  let result ← op (.putEnd job sent)
  pure (result >>= checkReceipt job part)

def uploadPart (cfg : Settings) (job : PartJob) : P (Except Err Receipt) := do
  let part ← op (.newPart job)
  if cfg.opts.uploadLimiter = true then do
    match ← op .limiter with
    | some err => pure (.error err)
    | none => putPart job part
  else putPart job part

/-- One turn of the loop of `uploadWorker`; `false` once the worker returns. -/
def uploadWorker (cfg : Settings) : P Bool := do
  match ← op .recv with
  | none => do
    op .exit
    pure false
  | some job => do
    match ← op .cause with
    | some _ => do
      op (.release job.buffer)
      pure true
    | none => do
      match ← uploadPart cfg job with
      | .ok receipt => do
        op (.storeReceipt job.number receipt)
        op (.release job.buffer)
        pure true
      | .error err => do
        op (.release job.buffer)
        recordFailure err
        op .lockWrite
        op .discard
        op .unlockWrite
        pure true

/-! ## The system -/

inductive Job where
  | write (ctx : Nat) (data : Bytes)
  | commit (ctx : Nat)
  | abort (ctx : Nat)
  | part
  | finish (backendErr : Option Err) (indeterminate : Bool)
deriving DecidableEq

def Job.Reply : Job → Type
  | write _ _ => Option Err
  | commit _ => Except Err ObjectAttrs
  | abort _ => AbortReply
  | part => Bool
  | finish _ _ => Unit

def body (cfg : Settings) : (j : Job) → P j.Reply
  | .write ctx data => write ctx data
  | .commit ctx => commit ctx
  | .abort ctx => abort ctx
  | .part => uploadWorker cfg
  | .finish backendErr indeterminate => finishAbort backendErr indeterminate

/-- Callers call the upload, workers upload parts, and a `finishAbort` runs with what it was started with. -/
def starts (cfg : Settings) : Tid → World → Job → Prop
  | .caller _, _, .write _ _ | .caller _, _, .commit _ | .caller _, _, .abort _ => True
  | .worker n, _, .part => n < cfg.parallelism
  | .finisher n, w, .finish backendErr indeterminate => w.spawned[n]? = some ⟨backendErr, indeterminate, false⟩
  | _, _, _ => False

/-- Callers may call again, and a worker goes on until it returns. -/
def again : (j : Job) → j.Reply → Prop
  | .part, goesOn => goesOn = true
  | .finish _ _, _ => False
  | _, _ => True

end ObjLog.Stream
