import ObjLog.Stream.Aborts
import ObjLog.Stream.Commits
import ObjLog.Stream.Script
/-!
# What callers of a multipart upload can count on

Over every run of any number of callers, the part workers and the goroutines of
aborts: what a successful `Commit` committed, that `Commit` and `Cleanup` of the
session exclude each other, and when an abort says that the object may exist.
-/

namespace ObjLog.Stream

open Lib Multipart

variable [Hashes] (cfg : Settings)

/-- What a thread finds before each of its jobs. -/
def Ready (i : Tid) (w : World) : Prop := Inv cfg w ∧ ∀ n, i = .worker n → n ∉ w.exited

/-- What a call leaves, for a caller that has seen the upload as it was when the call began. -/
def Leaves : (j : Job) → World → j.Reply → World → Prop
  | .write _ data, _, reply, w => reply = none → .wrote data ∈ w.log
  | .commit _, began, reply, w => (∀ attrs, reply = .ok attrs → w.state = .completed ∧ w.completed = attrs) ∧
      (began.state = .completed → reply = .ok began.completed)
  | .abort _, began, reply, w => Truthful reply w ∧ (began.state = .completed → reply = .committed)
  | .part, _, _, _ => True
  | .finish _ _, _, _, _ => True

theorem crowd_meets : (crowd cfg).Meets (Ready cfg) fun _ => Leaves where
  kept {i w w'} hkept hready := by
    have hkept := hkept hready.1
    exact ⟨hkept.inv hready.1, fun n hi => hkept.exited n hi (hready.2 n hi)⟩
  tick htick i hinv := Kept.tick htick hinv
  job {i j w} hstarts hready := by
    cases j with
    | write ctx data =>
      cases i with
      | caller n => exact Env.wp_mono (fun _ _ hv => ⟨fun _ => ⟨hv.1, nofun⟩, hv.2⟩) (write_wp hready.1)
      | worker n => cases hstarts
      | finisher n => cases hstarts
    | commit ctx =>
      cases i with
      | caller n => exact Env.wp_mono (fun _ _ hv => ⟨fun _ => ⟨hv.1, nofun⟩, hv.2⟩) (commit_wp hready.1)
      | worker n => cases hstarts
      | finisher n => cases hstarts
    | abort ctx =>
      cases i with
      | caller n => exact Env.wp_mono (fun _ _ hv => ⟨fun _ => ⟨hv.1, nofun⟩, hv.2⟩) (abort_wp hready.1)
      | worker n => cases hstarts
      | finisher n => cases hstarts
    | part =>
      cases i with
      | caller n => cases hstarts
      | worker n =>
        refine Env.wp_mono (fun goesOn v hv => ⟨fun hagain => ⟨hv.1, fun m hm => ?_⟩, trivial⟩)
          (uploadWorker_wp ⟨hready.1, hstarts, hready.2 n rfl⟩)
        obtain rfl := Tid.worker.inj hm
        exact (hv.2 hagain).2.2
      | finisher n => cases hstarts
    | finish backendErr indeterminate =>
      cases i with
      | caller n => cases hstarts
      | worker n => cases hstarts
      | finisher n =>
        exact Env.wp_mono (fun _ _ hv => ⟨False.elim, trivial⟩) (finishAbort_wp hready.1 hstarts)

theorem Fresh.ready {w : World} (i : Tid) (h : Fresh cfg w) : Ready cfg i w :=
  ⟨Inv.fresh h, fun n _ => by rw [h.workers.1]; exact List.not_mem_nil⟩

instance : Nontrivial Tid := ⟨.caller 0, .caller 1, by decide⟩

abbrev Tasks := Tid → Task World Op Op.Answer Job.Reply

variable {cfg} {w : World} {ts : Tasks}

theorem reaches_inv (h : (crowd cfg).Reaches (Fresh cfg) w ts) : Inv cfg w :=
  h.keeps (crowd_meets cfg) (fun _ i hw => Fresh.ready cfg i hw) (fun _ hw => Inv.fresh hw)
    fun _ _ _ hkept hinv => (hkept hinv).inv hinv

theorem reaches_leaves (h : (crowd cfg).Reaches (Fresh cfg) w ts) {i : Tid} {j : Job} {began : World} {reply : j.Reply}
    (hreturned : ts i = .returned j began reply) : Leaves j began reply w := by
  have hok := h.ok (crowd_meets cfg) (fun _ i hw => Fresh.ready cfg i hw) i
  rw [hreturned] at hok
  exact hok.returned

/-- The upload is completed, with these attributes. -/
def CompletedAs (cfg : Settings) (attrs : ObjectAttrs) (w : World) : Prop :=
  Inv cfg w ∧ w.state = .completed ∧ w.completed = attrs

/-- An upload that is completed stays so, with the same attributes. -/
theorem completed_stays {w' : World} {ts' : Tasks} {attrs : ObjectAttrs} (h : (crowd cfg).Reaches (Fresh cfg) w ts)
    (hstate : w.state = .completed ∧ w.completed = attrs) (hleads : (crowd cfg).Leads w ts w' ts') :
    w'.state = .completed ∧ w'.completed = attrs := by
  have hkeeps : CompletedAs cfg attrs w' := by
    refine hleads.keeps (crowd_meets cfg) (fun _ i hw => Fresh.ready cfg i hw) ?_ h ⟨reaches_inv h, hstate⟩
    rintro i u v hkept ⟨hinv, hs, hattrs⟩
    obtain ⟨hs', hattrs'⟩ := (hkept hinv).final hs
    exact ⟨(hkept hinv).inv hinv, hs', hattrs'.trans hattrs⟩
  exact hkeeps.2

/-! ## Where the bytes are -/

/-- However the goroutines take turns, until the upload fails or is aborted every byte accepted is in a part that was
cut or in the buffer that is being filled. Only the last part may be short. A queued job holds the part of its number,
in a buffer no other job has, and a receipt is the provider's for the part of its number. -/
theorem accepted_bytes_are_kept (h : (crowd cfg).Reaches (Fresh cfg) w ts) :
    (¬Bad w.state → w.hashed = w.parts.flatten ++ w.activeContents) ∧
    (∀ part ∈ w.parts.dropLast, part.length = cfg.partSize) ∧
    (∀ job ∈ w.jobs, (w.buffers job.buffer).owner = .queued ∧ JobOk w.parts (w.buffers job.buffer) job) ∧
    (w.jobs.map PartJob.buffer).Nodup ∧
    ∀ k receipt, (k, receipt) ∈ w.receipts → ∃ n part, k = n + 1 ∧ w.parts[n]? = some part ∧
      ReceiptFor w.log part receipt := by
  have hinv := reaches_inv h
  exact ⟨hinv.bytes, hinv.parts.2, hinv.queue, hinv.distinct, fun k receipt hmem => (hinv.receipts k receipt hmem).2⟩

omit [Hashes] in
open Sample in
theorem stored_accepted_bytes_are_kept : letI := hashes
    ∃ (w : World) (ts : Tasks), (crowd Sample.cfg).Reaches (Fresh Sample.cfg) w ts ∧ w.parts ≠ [] ∧
      w.hashed = w.parts.flatten ++ w.activeContents := by
  let _ := hashes
  have hreach := stored_reaches
  exact ⟨_, _, hreach, by decide +kernel, (accepted_bytes_are_kept hreach).1 (by decide +kernel)⟩

/-! ## What a commit commits -/

/-- Calls of the session's `Commit` and `Cleanup` do not overlap, none of `Commit` follows one of `Cleanup`, and no part
is put once `Commit` was called. After a `Commit` that succeeded every later one returns the same and every later
`Abort` returns nil; `Cleanup` is not called. -/
theorem commit_excludes_abort (h : (crowd cfg).Reaches (Fresh cfg) w ts) :
    (∀ before e after, w.log = before ++ e :: after → Fits before e) ∧
    ∀ i ctx began attrs, ts i = .returned (.commit ctx) began (.ok attrs) →
      ∀ w' ts', (crowd cfg).Leads w ts w' ts' → .cleanupBegan ∉ w'.log ∧
        ∀ w'' ts'' k ctx', (crowd cfg).Leads w' ts' w'' ts'' →
          (∀ reply, ts'' k = .returned (.commit ctx') w' reply → reply = .ok attrs) ∧
          (∀ reply, ts'' k = .returned (.abort ctx') w' reply → reply.err = none) := by
  have hinv := reaches_inv h
  refine ⟨fun before e after hsplit => hinv.orderly.fits hsplit, fun i ctx began attrs hreturned w' ts' hleads => ?_⟩
  have hstate := completed_stays h ((reaches_leaves h hreturned).1 attrs rfl) hleads
  have hreach' := h.leads hleads
  refine ⟨fun hmem => ?_, fun w'' ts'' k ctx' hleads' => ?_⟩
  · have hstopped := (reaches_inv hreach').cleaned hmem
    rw [hstate.1] at hstopped
    exact absurd hstopped (by decide)
  · have hreach'' := hreach'.leads hleads'
    refine ⟨fun reply hreply => ?_, fun reply hreply => ?_⟩
    · rw [(reaches_leaves hreach'' hreply).2 hstate.1, hstate.2]
    · rw [(reaches_leaves hreach'' hreply).2 hstate.1]
      rfl

omit [Hashes] in
open Sample in
theorem stored_commit_excludes_abort : letI := hashes
    ∃ (w : World) (ts : Tasks), (crowd Sample.cfg).Reaches (Fresh Sample.cfg) w ts ∧
      (∃ ctx began attrs, ts (.caller 1) = .returned (.commit ctx) began (.ok attrs)) ∧
      (∀ before e after, w.log = before ++ e :: after → Fits before e) ∧ .cleanupBegan ∉ w.log := by
  let _ := hashes
  have hreach := stored_reaches
  obtain ⟨ctx, began, hreply⟩ := stored_returned
  obtain ⟨hfits, hstored⟩ := commit_excludes_abort hreach
  exact ⟨_, _, hreach, ⟨_, _, _, hreply⟩, hfits, (hstored _ _ _ _ hreply _ _ .refl).1⟩

/-! ## Whether the object may exist -/

/-- While the last answer of the session's `Commit` leaves the object in doubt, an abort that cleaned up says so, unless
some abort took the upload over while a retried `Commit` had sealed it again. -/
theorem abort_keeps_doubt (h : (crowd cfg).Reaches (Fresh cfg) w ts) (hdoubt : ambiguous w.log = true)
    (hcalm : Calm w.log) {i : Tid} {ctx : Nat} {began : World} {err : Option Err}
    (hreturned : ts i = .returned (.abort ctx) began (.cleaned err)) :
    ∃ e, err = some e ∧ e.is (.stream .commitIndeterminate) = true :=
  ((reaches_leaves h hreturned).1 err rfl).2 hdoubt hcalm

namespace Sample

/-- The session's `Commit` is answered with an error, and the upload is aborted. -/
def aborts : Schedule :=
  resume (.caller 1) ++ run (.caller 3) (.abort 0) ++ run (.finisher 0) (.finish none true) ++ resume (.caller 3)

/-- The same with a `Commit` in between whose context has ended. -/
def retries : Schedule :=
  resume (.caller 1) ++ run (.caller 2) (.commit 1) ++ run (.caller 3) (.abort 0) ++
    run (.finisher 0) (.finish none false) ++ resume (.caller 3)

end Sample

omit [Hashes] in
open Sample in
theorem lost_abort_keeps_doubt : letI := hashes
    ∃ (w : World) (ts : Tasks), (crowd Sample.cfg).Reaches (Fresh Sample.cfg) w ts ∧ ambiguous w.log = true ∧
      Calm w.log ∧ ∃ ctx began err, ts (.caller 3) = .returned (.abort ctx) began (.cleaned (some err)) ∧
        err.is (.stream .commitIndeterminate) = true := by
  let _ := hashes
  have hreach := after_reaches aborts (show (uploading lost).1.exited = [0] by decide +kernel)
  have hdoubt : ambiguous (after lost aborts).1.log = true := by decide +kernel
  have hfound : ∀ e ∈ (after lost aborts).1.log, e ≠ .abortBegan .sealed true ∧ e ≠ .abortBegan .sealed false := by
    decide +kernel
  have hcalm : Calm (after lost aborts).1.log := by
    rintro found indeterminate hmem rfl
    cases indeterminate with
    | true => exact (hfound _ hmem).1 rfl
    | false => exact (hfound _ hmem).2 rfl
  obtain ⟨ctx, began, hreply⟩ := returned_of_abortReply
    (show abortReply ((after lost aborts).2 (.caller 3)) = some (.cleaned (some errCommitIndeterminate))
      by decide +kernel)
  obtain ⟨e, he, his⟩ := abort_keeps_doubt hreach hdoubt hcalm hreply
  exact ⟨_, _, hreach, hdoubt, hcalm, ctx, began, e, by rw [hreply, he], his⟩

omit [Hashes] in
open Sample in
/-- A `Commit` that gives up before it calls the session again makes the next abort forget the doubt. -/
theorem retried_commit_forgets_doubt : letI := hashes
    ∃ (w : World) (ts : Tasks), (crowd Sample.cfg).Reaches (Fresh Sample.cfg) w ts ∧ ambiguous w.log = true ∧
      ∃ ctx began, ts (.caller 3) = .returned (.abort ctx) began (.cleaned none) := by
  let _ := hashes
  have hdoubt : ambiguous (after lost retries).1.log = true := by decide +kernel
  have hreply := returned_of_abortReply
    (show abortReply ((after lost retries).2 (.caller 3)) = some (.cleaned none) by decide +kernel)
  exact ⟨_, _, after_reaches retries (show (uploading lost).1.exited = [0] by decide +kernel), hdoubt, hreply⟩

end ObjLog.Stream
