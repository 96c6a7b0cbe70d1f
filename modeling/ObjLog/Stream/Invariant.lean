import ObjLog.Stream.History
/-!
# What holds of an upload between any two steps

`Inv` says it of the state and the history together; `Kept i` is what thread `i`
may count on while the others step.
-/

namespace ObjLog.Stream

open Lib Multipart

/-- The upload will not succeed any more. -/
def Bad (s : UploadState) : Prop := s = .failed ∨ s = .aborting ∨ s = .aborted

/-- An abort has taken the upload over. -/
def Stopped (s : UploadState) : Prop := s = .aborting ∨ s = .aborted

/-- The session's `Commit` is called or was. -/
def Settled (s : UploadState) : Prop := s = .committing ∨ s = .completed ∨ s = .indeterminate

instance (s : UploadState) : Decidable (Bad s) := inferInstanceAs (Decidable (_ ∨ _ ∨ _))
instance (s : UploadState) : Decidable (Stopped s) := inferInstanceAs (Decidable (_ ∨ _))
instance (s : UploadState) : Decidable (Settled s) := inferInstanceAs (Decidable (_ ∨ _ ∨ _))

theorem Stopped.bad {s : UploadState} (h : Stopped s) : Bad s := .inr h

/-- How the state moves while the caller that commits waits. -/
def Drift (s s' : UploadState) : Prop := s' = s ∨ (s ≠ .completed ∧ s ≠ .committing ∧ Bad s')

theorem Drift.trans {a b c : UploadState} (h : Drift a b) (h' : Drift b c) : Drift a c := by
  rcases h with rfl | ⟨hcompleted, hcommitting, hbad⟩
  · exact h'
  · rcases h' with rfl | ⟨-, -, hbad'⟩
    · exact .inr ⟨hcompleted, hcommitting, hbad⟩
    · exact .inr ⟨hcompleted, hcommitting, hbad'⟩

/-- The result of an abort says that the object may exist. -/
def Marked (err : Option Err) : Prop := ∃ e, err = some e ∧ e.is (.stream .commitIndeterminate) = true

/-- The bytes of the part that is being filled. -/
def World.activeContents (w : World) : Bytes :=
  match w.active with
  | some b => w.contents b w.activeBytes
  | none => []

/-- Some abort has finished. -/
def World.Ended (w : World) : Prop := ∃ (n : Nat) (f : Finisher), w.spawned[n]? = some f ∧ f.finished = true

theorem getElem?_append_of_some {α : Type} {xs : List α} {n : Nat} {x : α} (h : xs[n]? = some x) (ys : List α) :
    (xs ++ ys)[n]? = some x := by
  rw [List.getElem?_append_left (List.getElem?_eq_some_iff.1 h).1, h]

theorem getElem?_concat {α : Type} {xs : List α} {n : Nat} {x y : α} (h : (xs ++ [y])[n]? = some x) :
    xs[n]? = some x ∨ n = xs.length ∧ x = y := by
  rcases Nat.lt_or_ge n xs.length with hlt | hge
  · exact .inl (by rwa [List.getElem?_append_left hlt] at h)
  · rw [List.getElem?_append_right hge, List.getElem?_singleton] at h
    split at h
    · exact .inr ⟨by omega, (Option.some.inj h).symm⟩
    · cases h

/-- The buffer of the job holds the part of its number. -/
structure JobOk (parts : List Bytes) (buffer : Buffer) (job : PartJob) : Prop where
  part : ∃ k, job.number = k + 1 ∧ parts[k]? = some (buffer.bytes.take job.used)
  used : job.used ≤ buffer.bytes.length

variable [Hashes] (cfg : Settings)

/-- The receipt is the provider's for the part. -/
structure ReceiptFor (log : List Event) (part : Bytes) (receipt : Receipt) : Prop where
  size : receipt.sizeBytes.toNat = part.length
  checksum : receipt.checksumSHA256 = Hashes.sha256 part
  uploaded : .putEnded receipt.number part part (.ok receipt) ∈ log

/-- The request assembles what was written from the parts that were uploaded. -/
structure RequestOk (parts : List Bytes) (log : List Event) (request : CommitRequest) : Prop where
  numbers : request.receipts.map Receipt.number = List.range' 1 request.receipts.length
  uploaded : List.Forall₂ (ReceiptFor log) parts request.receipts
  bytes : parts.flatten = written log
  full : ∀ part ∈ parts.dropLast, part.length = cfg.partSize
  size : request.sizeBytes.toNat = (written log).length
  hash : request.objectSHA256 = Hashes.sha256 (written log)
  valid : validateCommitRequest request cfg.limits = .ok ()

omit [Hashes] in
theorem JobOk.mono {parts parts' : List Bytes} {buffer : Buffer} {job : PartJob} (h : JobOk parts buffer job)
    (hparts : parts <+: parts') : JobOk parts' buffer job := by
  obtain ⟨k, hk, hpart⟩ := h.part
  obtain ⟨more, rfl⟩ := hparts
  exact ⟨⟨k, hk, getElem?_append_of_some hpart more⟩, h.used⟩

theorem ReceiptFor.mono {log log' : List Event} {part : Bytes} {receipt : Receipt} (h : ReceiptFor log part receipt)
    (hlog : ∀ e ∈ log, e ∈ log') : ReceiptFor log' part receipt :=
  { h with uploaded := hlog _ h.uploaded }

variable {cfg} in
theorem RequestOk.mono {parts : List Bytes} {log log' : List Event} {request : CommitRequest}
    (h : RequestOk cfg parts log request) (hlog : ∀ e ∈ log, e ∈ log') (hwritten : written log' = written log) :
    RequestOk cfg parts log' request :=
  { h with
    uploaded := h.uploaded.imp fun _ _ hr => hr.mono hlog
    bytes := h.bytes.trans hwritten.symm
    size := h.size.trans (by rw [hwritten])
    hash := h.hash.trans (by rw [hwritten]) }

structure Inv (w : World) : Prop where
  -- the state machine
  claims : w.claimant ≠ none ↔ w.state = .aborting
  finishers : ∀ (n : Nat) (f : Finisher), w.spawned[n]? = some f → f.finished = false →
    w.claimant = some (.finisher n) ∧ inCleanup w.log = false
  failedErr : w.state = .failed → w.firstErr ≠ none
  goodErr : ¬Bad w.state → w.firstErr = none
  settled : Settled w.state → w.done = true ∧ w.jobsClosed = true
  sealedJobs : w.state = .sealed → w.jobsClosed = true
  openJobs : w.jobsClosed = true → w.state ≠ .opened
  workers : w.done = true → ∀ n < cfg.parallelism, n ∈ w.exited
  -- the calls of the session
  orderly : Orderly w.log
  idleCommit : w.commitMu = none → inCommit w.log = false
  commits : inCommit w.log = true → w.state = .committing
  idleCleanup : w.claimant = none → inCleanup w.log = false
  cleaned : .cleanupBegan ∈ w.log → Stopped w.state
  called : CommitCalled w.log → w.done = true ∧ w.jobsClosed = true
  torn : Torn w.log → Bad w.state
  -- the bytes
  size : w.hashed.length = w.offset.toNat ∧ w.hashed.length ≤ cfg.limits.maxObjectSize.toNat ∧
    w.hashed.length ≤ cfg.partSize * cfg.limits.maxPartCount
  lengths : ∀ b, (w.buffers b).bytes.length = cfg.partSize
  owner : ∀ b, w.active = some b → (w.buffers b).owner = .active
  inactive : w.active = none → w.activeBytes = 0
  room : w.activeBytes ≤ cfg.partSize
  idleRoom : w.writeMu = none → w.activeBytes < cfg.partSize
  number : w.nextPart = w.parts.length + 1
  parts : (∀ p ∈ w.parts, 0 < p.length ∧ p.length ≤ cfg.partSize) ∧ ∀ p ∈ w.parts.dropLast, p.length = cfg.partSize
  full : w.writeMu = none → w.jobsClosed = false → ∀ p ∈ w.parts, p.length = cfg.partSize
  queue : ∀ job ∈ w.jobs, (w.buffers job.buffer).owner = .queued ∧ JobOk w.parts (w.buffers job.buffer) job
  distinct : (w.jobs.map PartJob.buffer).Nodup
  keys : (w.receipts.map Prod.fst).Nodup
  receipts : ∀ k r, (k, r) ∈ w.receipts → r.number = k ∧ ∃ n part, k = n + 1 ∧ w.parts[n]? = some part ∧
    ReceiptFor w.log part r
  bytes : ¬Bad w.state → w.hashed = w.parts.flatten ++ w.activeContents
  accepted : ¬Bad w.state → w.writeMu = none ∨ w.jobsClosed = true → w.hashed = written w.log
  sent : ¬Bad w.state → w.jobsClosed = true → w.activeContents = []
  requests : ∀ request, .commitBegan request ∈ w.log → RequestOk cfg w.parts w.log request
  ended : ∀ request result, .commitEnded request result ∈ w.log → .commitBegan request ∈ w.log
  outcome : w.state = .completed → ∃ request, .commitEnded request (.ok w.completed) ∈ w.log
  -- whether the object may exist
  retry : CommitCalled w.log → ∃ receipts, w.orderedReceipts = .ok receipts
  unsure : ambiguous w.log = true → w.state = .sealed ∨ w.state = .committing ∨ w.state = .indeterminate ∨
    Stopped w.state
  finished : w.state = .aborted → w.Ended
  stops : w.Ended → Stopped w.state
  marks : ∀ (n : Nat) (f : Finisher), w.spawned[n]? = some f → f.finished = false → ambiguous w.log = true → Calm w.log →
    f.indeterminate = true
  marked : w.Ended → ambiguous w.log = true → Calm w.log → w.abortWasIndeterminate = true ∧ Marked w.abortErr
  closed : ∀ d : Nat, w.channels[d]? = some true → w.Ended

/-! ## What a thread counts on -/

/-- What the holder of `writeMu` reads and writes. -/
structure Hand where
  active : Option Nat
  activeBytes : Nat
  nextPart : Nat
  offset : UInt64
  hashed : Bytes
  jobsClosed : Bool
  parts : List Bytes
  written : Bytes
  buffer : Option Buffer

def World.hand (w : World) : Hand :=
  ⟨w.active, w.activeBytes, w.nextPart, w.offset, w.hashed, w.jobsClosed, w.parts, written w.log, w.active.map w.buffers⟩

structure Kept (i : Tid) (w w' : World) : Prop where
  inv : Inv cfg w → Inv cfg w'
  writeMu : w.writeMu = some i → w'.writeMu = some i ∧ w'.hand = w.hand
  opened : w.writeMu = some i → w.state = .opened → w'.state = .opened ∨ Bad w'.state
  commitMu : w.commitMu = some i → w'.commitMu = some i ∧ inCommit w'.log = inCommit w.log ∧
    ambiguous w'.log = ambiguous w.log
  drift : w.commitMu = some i → Drift w.state w'.state
  claimant : w.claimant = some i → w'.claimant = some i ∧ inCleanup w'.log = inCleanup w.log
  stopped : Stopped w.state → Stopped w'.state ∧ ambiguous w'.log = ambiguous w.log
  bad : Bad w.state → Bad w'.state
  final : w.state = .completed → w'.state = .completed ∧ w'.completed = w.completed
  closed : w.jobsClosed = true → w'.jobsClosed = true ∧ w'.offset = w.offset ∧ w'.hashed = w.hashed ∧
    w'.nextPart = w.nextPart
  parts : w.parts <+: w'.parts
  log : ∀ e ∈ w.log, e ∈ w'.log
  done : w.done = true → w'.done = true ∧ w'.receipts = w.receipts
  exited : ∀ n, i = .worker n → n ∉ w.exited → n ∉ w'.exited
  own : ∀ b, (w.buffers b).owner = .thread i → w'.buffers b = w.buffers b
  spawned : ∀ (n : Nat) (f : Finisher), i = .finisher n → w.spawned[n]? = some f → w'.spawned[n]? = some f
  ended : w.Ended → w'.Ended

theorem Kept.refl (i : Tid) (w : World) : Kept cfg i w w where
  inv := id
  writeMu h := ⟨h, rfl⟩
  opened _ h := .inl h
  commitMu h := ⟨h, rfl, rfl⟩
  drift _ := .inl rfl
  claimant h := ⟨h, rfl⟩
  stopped h := ⟨h, rfl⟩
  bad := id
  final h := ⟨h, rfl⟩
  closed h := ⟨h, rfl, rfl, rfl⟩
  parts := List.prefix_rfl
  log _ := id
  done h := ⟨h, rfl⟩
  exited _ _ := id
  own _ _ := rfl
  spawned _ _ _ := id
  ended := id

variable {cfg}

theorem Kept.trans {i : Tid} {u v w : World} (h : Kept cfg i u v) (h' : Kept cfg i v w) : Kept cfg i u w where
  inv hinv := h'.inv (h.inv hinv)
  writeMu hu := by
    obtain ⟨hv, hhand⟩ := h.writeMu hu
    obtain ⟨hw, hhand'⟩ := h'.writeMu hv
    exact ⟨hw, hhand'.trans hhand⟩
  opened hu hs := by
    rcases h.opened hu hs with hv | hv
    · exact h'.opened (h.writeMu hu).1 hv
    · exact .inr (h'.bad hv)
  commitMu hu := by
    obtain ⟨hv, hin, hamb⟩ := h.commitMu hu
    obtain ⟨hw, hin', hamb'⟩ := h'.commitMu hv
    exact ⟨hw, hin'.trans hin, hamb'.trans hamb⟩
  drift hu := (h.drift hu).trans (h'.drift (h.commitMu hu).1)
  claimant hu := by
    obtain ⟨hv, hin⟩ := h.claimant hu
    obtain ⟨hw, hin'⟩ := h'.claimant hv
    exact ⟨hw, hin'.trans hin⟩
  stopped hu := by
    obtain ⟨hv, hamb⟩ := h.stopped hu
    obtain ⟨hw, hamb'⟩ := h'.stopped hv
    exact ⟨hw, hamb'.trans hamb⟩
  bad hu := h'.bad (h.bad hu)
  final hu := by
    obtain ⟨hv, hattrs⟩ := h.final hu
    obtain ⟨hw, hattrs'⟩ := h'.final hv
    exact ⟨hw, hattrs'.trans hattrs⟩
  closed hu := by
    obtain ⟨hv, hoffset, hhashed, hnext⟩ := h.closed hu
    obtain ⟨hw, hoffset', hhashed', hnext'⟩ := h'.closed hv
    exact ⟨hw, hoffset'.trans hoffset, hhashed'.trans hhashed, hnext'.trans hnext⟩
  parts := h.parts.trans h'.parts
  log e he := h'.log e (h.log e he)
  done hu := by
    obtain ⟨hv, hreceipts⟩ := h.done hu
    obtain ⟨hw, hreceipts'⟩ := h'.done hv
    exact ⟨hw, hreceipts'.trans hreceipts⟩
  exited n hi hn := h'.exited n hi (h.exited n hi hn)
  own b hb := (h'.own b (by rw [h.own b hb]; exact hb)).trans (h.own b hb)
  spawned n f hi hf := h'.spawned n f hi (h.spawned n f hi hf)
  ended hu := h'.ended (h.ended hu)

/-- What holds of every thread at any time. -/
theorem Kept.calm {i : Tid} {w w' : World} (h : Kept cfg i w w') (hcalm : Calm w'.log) : Calm w.log :=
  fun found ind hmem => hcalm found ind (h.log _ hmem)

theorem Inv.fresh {w : World} (h : Fresh cfg w) : Inv cfg w := by
  obtain ⟨hclosed, hactive, hbytes, hnext, hoffset, hhashed⟩ := h.writer
  obtain ⟨hchannels, -, hspawned, hclaimant⟩ := h.channels
  obtain ⟨hparts, hlog⟩ := h.history
  constructor <;>
    simp [hlog, hparts, hclosed, hactive, hbytes, hnext, hoffset, hhashed, hchannels, hspawned, hclaimant, h.state,
      h.firstErr, h.receipts, h.jobs, h.workers.2, Bad, Settled, Stopped, Torn, CommitCalled, inCommit, inCleanup, ambiguous,
      written, World.activeContents, Orderly.nil, World.Ended, cfg.partSize_pos, fun b => (h.buffers b).1]

end ObjLog.Stream
