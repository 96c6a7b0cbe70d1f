import ObjLog.Lib.Prog
import ObjLog.Sink.Multipart
/-!
# The multipart stream's state, `blob/sink/stream/stream.go` and `pool.go`

One upload as its callers, its part workers and the goroutines that finish an
abort see it. An operation is one step on the shared state: a section under
`u.mu`, a use of the fields under `writeMu`, a channel or mutex operation, or the
begin or the end of a call of the provider session.

Times at which the upload is only read by the holder of a lock are one operation.
A buffer is a number; `buffers` is what it holds and who may touch it. The log and
the fields marked so are history: no program reads them.
-/

namespace ObjLog.Stream

open Lib Multipart

/-! ## Options -/

/-- `bufferPool` is the buffer size of a shared pool. -/
structure MultipartOptions where
  partSize : Int
  uploadParallelism : Int
  uploadQueueSize : Int
  uploadLimiter : Bool
  bufferPool : Option Int
deriving DecidableEq

def invalidOptions (text : String) : Err := .of (.stream .invalidOptions) text

def validateMultipartOptions (limits : Limits) (opts : MultipartOptions) : Except Err Unit := do
  failIf (opts.partSize ≤ 0) (invalidOptions "part_size must be positive")
  failIf (opts.uploadParallelism ≤ 0) (invalidOptions "upload_parallelism must be positive")
  failIf (opts.uploadQueueSize < 0) (invalidOptions "upload_queue_size must not be negative")
  restate limits.validate fun e => invalidOptions ("backend limits: " ++ e.text)
  failIf (opts.partSize > limits.maxPartSize.toNat)
    (invalidOptions s!"part_size={opts.partSize} exceeds backend maximum={limits.maxPartSize}")
  failIf (opts.partSize < limits.minPartSize.toNat)
    (invalidOptions s!"part_size={opts.partSize} is below backend non-final minimum={limits.minPartSize}")
  failIf (opts.bufferPool.any (· ≠ opts.partSize))
    (invalidOptions s!"pool buffer_size={opts.bufferPool.getD 0} part_size={opts.partSize}")

/-- Limits and options that `NewMultipartUpload` accepts. -/
structure Settings where
  limits : Limits
  opts : MultipartOptions
  valid : validateMultipartOptions limits opts = .ok ()

def Settings.partSize (s : Settings) : Nat := s.opts.partSize.toNat
def Settings.parallelism (s : Settings) : Nat := s.opts.uploadParallelism.toNat
def Settings.queueSize (s : Settings) : Nat := s.opts.uploadQueueSize.toNat

theorem Settings.partSize_pos (s : Settings) : 0 < s.partSize := by
  have hvalid := s.valid
  simp only [validateMultipartOptions, checks_ok] at hvalid
  have := hvalid.1
  unfold Settings.partSize
  omega

/-! ## State -/

inductive UploadState where
  | opened | sealing | sealed | failed | aborting | aborted | committing | completed | indeterminate
deriving DecidableEq, Repr

def UploadState.number : UploadState → Nat
  | opened => 0
  | sealing => 1
  | sealed => 2
  | failed => 3
  | aborting => 4
  | aborted => 5
  | committing => 6
  | completed => 7
  | indeterminate => 8

/-- A caller of the upload, a part worker, or a `finishAbort`. -/
inductive Tid where
  | caller (n : Nat)
  | worker (n : Nat)
  | finisher (n : Nat)
deriving DecidableEq, Repr

structure PartJob where
  number : Nat
  buffer : Nat
  used : Nat
deriving DecidableEq

/-- Who may touch a buffer: nobody, another upload, the writer, nobody until a worker takes the job, or a worker. -/
inductive Owner where
  | idle | foreign | active | queued
  | thread (i : Tid)
deriving DecidableEq

structure Buffer where
  bytes : Bytes
  owner : Owner
deriving DecidableEq

/-- A `finishAbort` that was started. -/
structure Finisher where
  backendErr : Option Err
  indeterminate : Bool
  finished : Bool
deriving DecidableEq

/-- What callers and the provider see: results of `Write`, calls of the session, and aborts that set out to clean up.
`tore` is a `Write` that failed with some of its bytes accepted; `left` is what the buffer holds when `PutPart`
returns. -/
inductive Event where
  | wrote (data : Bytes)
  | tore (data : Bytes)
  | putBegan (number : Nat) (sent : Bytes)
  | putEnded (number : Nat) (sent left : Bytes) (result : Except Err Receipt)
  | commitBegan (request : CommitRequest)
  | commitEnded (request : CommitRequest) (result : Except Err ObjectAttrs)
  | cleanupBegan
  | cleanupEnded (err : Option Err)
  | abortBegan (found : UploadState) (indeterminate : Bool)
deriving DecidableEq

structure World where
  state : UploadState
  firstErr : Option Err
  receipts : List (Nat × Receipt)
  abortDone : Option Nat
  abortErr : Option Err
  cleanupErr : Option Err
  abortWasIndeterminate : Bool
  completed : ObjectAttrs
  jobsClosed : Bool
  active : Option Nat
  activeBytes : Nat
  nextPart : Nat
  offset : UInt64
  /-- what `u.hasher` was given -/
  hashed : Bytes
  writeMu : Option Tid
  commitMu : Option Tid
  jobs : List PartJob
  /-- the cause `u.runCtx` was cancelled with -/
  cause : Option Err
  exited : List Nat
  done : Bool
  /-- the `abortDone` channels made so far, and whether they are closed -/
  channels : List Bool
  ctxs : Nat → Option Err
  buffers : Nat → Buffer
  spawned : List Finisher
  /-- history: the thread that cleans up -/
  claimant : Option Tid
  /-- history: the bytes of the parts, by number -/
  parts : List Bytes
  log : List Event

def ObjectAttrs.zero : ObjectAttrs := ⟨"", 0, "", "", .zero 32⟩

def errClosed : Err := .bare (.stream .closed)
def errAborted : Err := .bare (.stream .aborted)
def errEmptyUpload : Err := .bare (.stream .emptyUpload)
def errCommitInProgress : Err := .bare (.stream .commitInProgress)
def errCommitIndeterminate : Err := .bare (.stream .commitIndeterminate)
def contract (text : String) : Err := .of (.stream .backendContract) text

def setOwner (buffers : Nat → Buffer) (b : Nat) (owner : Owner) : Nat → Buffer :=
  Function.update buffers b { buffers b with owner := owner }

namespace World

variable (cfg : Settings) (w : World)

def writeStateError : Option Err :=
  match w.state with
  | .opened => none
  | .failed => w.firstErr
  | .aborting | .aborted => some errAborted
  | .committing => some errCommitInProgress
  | .indeterminate => some errCommitIndeterminate
  | _ => some errClosed

def failure : Err :=
  match w.firstErr with
  | some err => err
  | none =>
    match w.state with
    | .aborting | .aborted => errAborted
    | .indeterminate => errCommitIndeterminate
    | _ => w.cause.getD errClosed

/-- The section of `recordFailure`: the error to cancel with. -/
def recordFailure (err : Err) : Option Err × World :=
  if w.state = .aborting ∨ w.state = .aborted then (none, w)
  else
    let firstErr := w.firstErr.getD err
    let state := if w.state = .opened ∨ w.state = .sealing ∨ w.state = .sealed then .failed else w.state
    (some firstErr, { w with firstErr := some firstErr, state := state })

def validateGrowth (bytes : Nat) : Option Err :=
  if bytes = 0 then none
  else if bytes > cfg.limits.maxObjectSize.toNat ∨ w.offset.toNat > cfg.limits.maxObjectSize.toNat - bytes then
    some (.of (.stream .limitExceeded) s!"object size would exceed {cfg.limits.maxObjectSize} bytes")
  else
    let partCount := (w.offset.toNat + bytes - 1) / cfg.partSize + 1
    if partCount > cfg.limits.maxPartCount then
      some (.of (.stream .limitExceeded)
        s!"object would require {partCount} parts, maximum is {cfg.limits.maxPartCount}")
    else none

/-- The bytes of the buffer. -/
def contents (b used : Nat) : Bytes := (w.buffers b).bytes.take used

/-- The loop body of `Write`: as much of the data as the buffer takes. -/
def copyIn (b : Nat) (data : Bytes) : World :=
  let n := min (cfg.partSize - w.activeBytes) data.length
  let old := (w.buffers b).bytes
  let bytes := old.take w.activeBytes ++ (data.take n ++ old.drop (w.activeBytes + n))
  { w with
    buffers := Function.update w.buffers b { w.buffers b with bytes := bytes }
    hashed := w.hashed ++ data.take n
    activeBytes := w.activeBytes + n
    offset := w.offset + UInt64.ofNat n }

def enqueueActive (b : Nat) : World :=
  { w with
    jobs := w.jobs ++ [⟨w.nextPart, b, w.activeBytes⟩]
    buffers := setOwner w.buffers b .queued
    active := none
    activeBytes := 0
    nextPart := w.nextPart + 1
    parts := w.parts ++ [w.contents b w.activeBytes] }

def discardAndClose : World :=
  match w.active with
  | some b =>
    { w with buffers := setOwner w.buffers b .idle, active := none, activeBytes := 0, jobsClosed := true }
  | none => { w with jobsClosed := true }

end World

/-- How the first section of `beginSealLocked` ends. -/
inductive SealStart where
  | stop (state : UploadState) (attrs : ObjectAttrs) (err : Option Err)
  | failed (err : Option Err)
  | go

namespace World

variable (w : World)

def beginSeal : SealStart × World :=
  match w.state with
  | .completed => (.stop .completed w.completed none, w)
  | .opened =>
    if w.offset = 0 then (.stop .opened ObjectAttrs.zero (some errEmptyUpload), w)
    else (.go, { w with state := .sealing })
  | .sealing | .sealed => (.go, w)
  | .failed => (.failed w.firstErr, w)
  | .aborting => (.stop .aborting ObjectAttrs.zero (some errAborted), w)
  | .aborted => (.stop .aborted ObjectAttrs.zero (some errAborted), w)
  | .committing => (.stop .committing ObjectAttrs.zero (some errCommitInProgress), w)
  | .indeterminate => (.go, { w with state := .sealed })

def reopen : World := if w.state = .sealing then { w with state := .opened } else w

def finishSeal : World := if w.state = .sealing then { w with state := .sealed } else w

def orderedReceipts : Except Err (List Receipt) := do
  let count := w.nextPart - 1
  failIf (w.receipts.length ≠ count) (contract s!"received {w.receipts.length} receipts for {count} parts")
  let receipts := (w.receipts.map Prod.snd).mergeSort fun a b => a.number ≤ b.number
  restate (validateReceipts receipts) fun e => contract e.text
  return receipts

/-- The section of `Commit` once the parts are in. -/
def startCommit (ctx : Nat) : Except Err (List Receipt) × World :=
  if w.state = .aborting ∨ w.state = .aborted then (.error errAborted, w)
  else
    match w.firstErr with
    | some err => (.error err, { w with state := .failed })
    | none =>
      match w.ctxs ctx with
      | some err => (.error err, w)
      | none =>
        if w.state ≠ .sealed then
          (.error (.of (.stream .closed) s!"cannot commit state {w.state.number}"), w)
        else
          match w.orderedReceipts with
          | .error err => (.error err, { w with firstErr := some err, state := .failed })
          | .ok receipts => (.ok receipts, { w with state := .committing })

end World

def definiteCommitFailure (err : Err) : Bool :=
  err.is (.multipart .preconditionFailed) || err.is (.multipart .partConflict) || err.is (.multipart .invalidStore) ||
    err.is (.multipart .cleaned)

/-- The error says that no object was made, and nothing else. -/
def definite (err : Err) : Bool := !err.is (.multipart .commitIndeterminate) && definiteCommitFailure err

/-- The checks of `Commit` on what the session returned. -/
def checkAttrs (offset : UInt64) (result : Except Err ObjectAttrs) : Except Err ObjectAttrs := do
  let attrs ← result
  failIf (attrs.key = "") (contract "complete returned an empty object key")
  failIf (attrs.sizeBytes ≠ offset) (contract s!"complete size={attrs.sizeBytes} accepted_bytes={offset}")
  return attrs

/-- `errors.Join(ErrCommitIndeterminate, err)`. -/
def joinIndeterminate : Option Err → Err
  | none => errCommitIndeterminate
  | some err => .join (some errCommitIndeterminate) err

/-- The cause the upload's context ends with. -/
def settleCause : Except Err ObjectAttrs → Err
  | .ok _ => errClosed
  | .error err => if definite err then err else errCommitIndeterminate

def settleReply : Except Err ObjectAttrs → Except Err ObjectAttrs
  | .ok attrs => .ok attrs
  | .error err => if definite err then .error err else .error (joinIndeterminate (some err))

/-- How the section of `Abort` ends. -/
inductive Claim where
  | completed
  | committing
  | finished (err : Option Err)
  | wait (done : Option Nat)
  | claimed (done : Nat) (indeterminate : Bool)

namespace World

variable (w : World)

def settle : Except Err ObjectAttrs → World
  | .ok attrs => { w with completed := attrs, state := .completed }
  | .error err =>
    if definite err then { w with firstErr := some err, state := .failed } else { w with state := .indeterminate }

/-- `Abort` takes the upload over. -/
def claim (i : Tid) (indeterminate : Bool) : Claim × World :=
  (.claimed w.channels.length indeterminate,
    { w with
      state := .aborting
      abortDone := some w.channels.length
      channels := w.channels ++ [false]
      claimant := some i
      log := w.log ++ [.abortBegan w.state indeterminate] })

def claimAbort (i : Tid) : Claim × World :=
  match w.state with
  | .completed => (.completed, w)
  | .committing => (.committing, w)
  | .aborted => if w.cleanupErr = none then (.finished w.abortErr, w) else w.claim i w.abortWasIndeterminate
  | .aborting => (.wait w.abortDone, w)
  | .indeterminate => w.claim i true
  | _ => w.claim i false

/-- The section of `finishAbort`, run by finisher `n`. -/
def finishAbort (n : Nat) (backendErr : Option Err) (indeterminate : Bool) : World :=
  { w with
    abortErr := if indeterminate then some (joinIndeterminate backendErr) else backendErr
    cleanupErr := backendErr
    abortWasIndeterminate := indeterminate
    state := .aborted
    claimant := none
    spawned := w.spawned.set n ⟨backendErr, indeterminate, true⟩ }

def storeReceipt (number : Nat) (receipt : Receipt) : World :=
  { w with receipts := (w.receipts.filter fun x => x.1 ≠ number) ++ [(number, receipt)] }

end World

/-! ## Operations -/

inductive Op where
  | lockWrite | unlockWrite | lockCommit | unlockCommit
  | ctxErr (ctx : Nat) | cause | cancel (cause : Err)
  | writeState | failure | firstErr | recordFailure (err : Err)
  | growth (bytes : Nat) | acquire (ctx : Nat) | copyIn (data : Bytes) | enqueue (ctx : Nat)
  | discard | closeJobs | jobsClosed | wrote (data : Bytes) | tore (data : Bytes)
  | beginSeal | reopen | finishSeal
  | waitDone (ctx : Nat) | startCommit (ctx : Nat) | commitBegin (receipts : List Receipt)
  | commitEnd (request : CommitRequest) | offset | settle (result : Except Err ObjectAttrs)
  | claimAbort | cleanupBegin | cleanupEnd | spawn (backendErr : Option Err) (indeterminate : Bool)
  | waitChannel (done : Option Nat) (ctx : Nat) | abortErr
  | awaitDone | finishAbort (backendErr : Option Err) (indeterminate : Bool) | closeChannel (done : Option Nat)
  | recv | newPart (job : PartJob) | limiter | putBegin (job : PartJob) | putEnd (job : PartJob) (sent : Bytes)
  | release (buffer : Nat) | storeReceipt (number : Nat) (receipt : Receipt) | exit

/-- How a send ends. -/
inductive Sent where
  | sent
  | ctx (err : Err)
  | cancelled
deriving DecidableEq

def Op.Answer : Op → Type
  | ctxErr _ | cause | writeState | firstErr | recordFailure _ | growth _ | waitDone _ | cleanupEnd | waitChannel _ _
  | abortErr | limiter => Option Err
  | failure => Err
  | acquire _ => Except Err (Option Nat)
  | copyIn _ => Nat × Bool
  | enqueue _ => Sent
  | jobsClosed => Bool
  | beginSeal => SealStart
  | reopen => UploadState
  | finishSeal => UploadState × Option Err
  | startCommit _ => Except Err (List Receipt)
  | commitBegin _ => CommitRequest
  | commitEnd _ => Except Err ObjectAttrs
  | offset => UInt64
  | claimAbort => Claim
  | finishAbort _ _ => Option Nat
  | recv => Option PartJob
  | newPart _ => Part
  | putBegin _ => Bytes
  | putEnd _ _ => Except Err Receipt
  | _ => Unit

variable [Hashes] (cfg : Settings)

/-- One operation of thread `i`. -/
inductive Act (i : Tid) : World → (op : Op) → op.Answer → World → Prop
  | lockWrite {w : World} : w.writeMu = none → Act i w .lockWrite () { w with writeMu := some i }
  | unlockWrite {w : World} : w.writeMu = some i → Act i w .unlockWrite () { w with writeMu := none }
  | lockCommit {w : World} : w.commitMu = none → Act i w .lockCommit () { w with commitMu := some i }
  | unlockCommit {w : World} : w.commitMu = some i → Act i w .unlockCommit () { w with commitMu := none }
  | ctxErr {w : World} {ctx : Nat} : Act i w (.ctxErr ctx) (w.ctxs ctx) w
  | cause {w : World} : Act i w .cause w.cause w
  | cancel {w : World} {cause : Err} : Act i w (.cancel cause) () { w with cause := some (w.cause.getD cause) }
  | writeState {w : World} : Act i w .writeState w.writeStateError w
  | failure {w : World} : Act i w .failure w.failure w
  | firstErr {w : World} : Act i w .firstErr w.firstErr w
  | recordFailure {w : World} {err : Err} : Act i w (.recordFailure err) (w.recordFailure err).1 (w.recordFailure err).2
  | growth {w : World} {bytes : Nat} : Act i w (.growth bytes) (w.validateGrowth cfg bytes) w
  | hasActive {w : World} {ctx b : Nat} : w.active = some b → Act i w (.acquire ctx) (.ok none) w
  | lease {w : World} {ctx b : Nat} : w.active = none → (w.buffers b).owner = .idle → w.cause = none →
      w.ctxs ctx = none →
      Act i w (.acquire ctx) (.ok (some b)) { w with active := some b, buffers := setOwner w.buffers b .active }
  | leaseCtx {w : World} {ctx : Nat} {err : Err} : w.active = none → w.ctxs ctx = some err →
      Act i w (.acquire ctx) (.error err) w
  | leaseCause {w : World} {ctx : Nat} {err : Err} : w.active = none → w.cause = some err →
      Act i w (.acquire ctx) (.error err) w
  | copyIn {w : World} {data : Bytes} {b : Nat} : w.active = some b →
      Act i w (.copyIn data) (min (cfg.partSize - w.activeBytes) data.length,
        decide ((w.copyIn cfg b data).activeBytes = cfg.partSize)) (w.copyIn cfg b data)
  | nothingToSend {w : World} {ctx : Nat} : w.active = none ∨ w.activeBytes = 0 → Act i w (.enqueue ctx) .sent w
  | send {w : World} {ctx b : Nat} : w.active = some b → w.activeBytes ≠ 0 → w.jobs.length < max 1 cfg.queueSize →
      Act i w (.enqueue ctx) .sent (w.enqueueActive b)
  | sendCtx {w : World} {ctx : Nat} {err : Err} : w.active ≠ none → w.activeBytes ≠ 0 → w.ctxs ctx = some err →
      Act i w (.enqueue ctx) (.ctx err) w
  | sendCancelled {w : World} {ctx : Nat} : w.active ≠ none → w.activeBytes ≠ 0 → w.cause ≠ none →
      Act i w (.enqueue ctx) .cancelled w
  | discard {w : World} : Act i w .discard () w.discardAndClose
  | closeJobs {w : World} : Act i w .closeJobs () { w with jobsClosed := true }
  | jobsClosed {w : World} : Act i w .jobsClosed w.jobsClosed w
  | wrote {w : World} {data : Bytes} : Act i w (.wrote data) () { w with log := w.log ++ [.wrote data] }
  | tore {w : World} {data : Bytes} : Act i w (.tore data) () { w with log := w.log ++ [.tore data] }
  | beginSeal {w : World} : Act i w .beginSeal w.beginSeal.1 w.beginSeal.2
  | reopen {w : World} : Act i w .reopen w.state w.reopen
  | finishSeal {w : World} : Act i w .finishSeal (w.finishSeal.state, w.firstErr) w.finishSeal
  | waitDone {w : World} {ctx : Nat} : w.done = true → Act i w (.waitDone ctx) none w
  | waitDoneCtx {w : World} {ctx : Nat} {err : Err} : w.ctxs ctx = some err → Act i w (.waitDone ctx) (some err) w
  | startCommit {w : World} {ctx : Nat} : Act i w (.startCommit ctx) (w.startCommit ctx).1 (w.startCommit ctx).2
  | commitBegin {w : World} {receipts : List Receipt} :
      Act i w (.commitBegin receipts) ⟨receipts, w.offset, Hashes.sha256 w.hashed⟩
        { w with log := w.log ++ [.commitBegan ⟨receipts, w.offset, Hashes.sha256 w.hashed⟩] }
  | commitEnd {w : World} {request : CommitRequest} {result : Except Err ObjectAttrs} :
      Act i w (.commitEnd request) result { w with log := w.log ++ [.commitEnded request result] }
  | offset {w : World} : Act i w .offset w.offset w
  | settle {w : World} {result : Except Err ObjectAttrs} : Act i w (.settle result) () (w.settle result)
  | claimAbort {w : World} : Act i w .claimAbort (w.claimAbort i).1 (w.claimAbort i).2
  | cleanupBegin {w : World} : Act i w .cleanupBegin () { w with log := w.log ++ [.cleanupBegan] }
  | cleanupEnd {w : World} {err : Option Err} : Act i w .cleanupEnd err { w with log := w.log ++ [.cleanupEnded err] }
  | spawn {w : World} {backendErr : Option Err} {indeterminate : Bool} :
      Act i w (.spawn backendErr indeterminate) () { w with
        spawned := w.spawned ++ [⟨backendErr, indeterminate, false⟩]
        claimant := some (.finisher w.spawned.length) }
  | waitChannel {w : World} {d ctx : Nat} : w.channels[d]? = some true → Act i w (.waitChannel (some d) ctx) none w
  | waitChannelCtx {w : World} {d : Option Nat} {ctx : Nat} {err : Err} : w.ctxs ctx = some err →
      Act i w (.waitChannel d ctx) (some err) w
  | abortErr {w : World} : Act i w .abortErr w.abortErr w
  | awaitDone {w : World} : w.done = true → Act i w .awaitDone () w
  | finishAbort {w : World} {n : Nat} {backendErr : Option Err} {indeterminate : Bool} : i = .finisher n →
      Act i w (.finishAbort backendErr indeterminate) w.abortDone (w.finishAbort n backendErr indeterminate)
  | closeChannel {w : World} {d : Nat} :
      Act i w (.closeChannel (some d)) () { w with channels := w.channels.set d true }
  | recv {w : World} {job : PartJob} {jobs : List PartJob} : w.jobs = job :: jobs →
      Act i w .recv (some job) { w with jobs := jobs, buffers := setOwner w.buffers job.buffer (.thread i) }
  | recvClosed {w : World} : w.jobs = [] → w.jobsClosed = true → Act i w .recv none w
  | newPart {w : World} {job : PartJob} :
      Act i w (.newPart job) (newPart job.number (w.contents job.buffer job.used)) w
  | limiter {w : World} {err : Option Err} : Act i w .limiter err w
  | putBegin {w : World} {job : PartJob} : Act i w (.putBegin job) (w.contents job.buffer job.used)
      { w with log := w.log ++ [.putBegan job.number (w.contents job.buffer job.used)] }
  | putEnd {w : World} {job : PartJob} {sent : Bytes} {result : Except Err Receipt} :
      Act i w (.putEnd job sent) result
        { w with log := w.log ++ [.putEnded job.number sent (w.contents job.buffer job.used) result] }
  | release {w : World} {b : Nat} : Act i w (.release b) () { w with buffers := setOwner w.buffers b .idle }
  | storeReceipt {w : World} {number : Nat} {receipt : Receipt} :
      Act i w (.storeReceipt number receipt) () (w.storeReceipt number receipt)
  | exit {w : World} {n : Nat} : i = .worker n → Act i w .exit () { w with exited := n :: w.exited }

/-- What the world does on its own: contexts end, `u.done` is closed once the workers have returned, and other uploads
use the pool. -/
inductive Tick : World → World → Prop
  | ctx {w : World} {ctx : Nat} {err : Err} : w.ctxs ctx = none →
      Tick w { w with ctxs := Function.update w.ctxs ctx (some err) }
  | done {w : World} : (∀ n < cfg.parallelism, n ∈ w.exited) → Tick w { w with done := true }
  | pool {w : World} {b : Nat} {buffer : Buffer} : (w.buffers b).owner = .idle ∨ (w.buffers b).owner = .foreign →
      buffer.owner = .idle ∨ buffer.owner = .foreign → buffer.bytes.length = cfg.partSize →
      Tick w { w with buffers := Function.update w.buffers b buffer }

/-- A new upload. The pool is as other uploads left it. -/
structure Fresh (w : World) : Prop where
  state : w.state = .opened
  firstErr : w.firstErr = none
  receipts : w.receipts = []
  aborts : w.abortErr = none ∧ w.cleanupErr = none ∧ w.abortWasIndeterminate = false
  writer : w.jobsClosed = false ∧ w.active = none ∧ w.activeBytes = 0 ∧ w.nextPart = 1 ∧ w.offset = 0 ∧ w.hashed = []
  locks : w.writeMu = none ∧ w.commitMu = none
  jobs : w.jobs = []
  cause : w.cause = none
  workers : w.exited = [] ∧ w.done = false
  channels : w.channels = [] ∧ w.abortDone = none ∧ w.spawned = [] ∧ w.claimant = none
  buffers : ∀ b, (w.buffers b).bytes.length = cfg.partSize ∧
    ((w.buffers b).owner = .idle ∨ (w.buffers b).owner = .foreign)
  history : w.parts = [] ∧ w.log = []

end ObjLog.Stream
