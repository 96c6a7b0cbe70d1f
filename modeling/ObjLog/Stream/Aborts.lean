import ObjLog.Stream.Threads
/-!
# `Abort` and the goroutine that finishes it

One abort at a time has the upload. It calls the session's `Cleanup`, hands the
rest to a goroutine of its own, and says whether the object may exist.
-/

namespace ObjLog.Stream

open Lib Multipart

variable {n ctx : Nat} {indeterminate : Bool}

variable [Hashes] {cfg : Settings} {i : Tid} {w : World} {α : Type} {Q : α → World → Prop}

omit [Hashes] in
theorem discardAndClose_frame (w : World) : w.discardAndClose.claimant = w.claimant ∧ w.discardAndClose.log = w.log := by
  rcases Option.eq_none_or_eq_some w.active with hactive | ⟨b, hactive⟩
  · rw [discardAndClose_none hactive]
    exact ⟨rfl, rfl⟩
  · rw [discardAndClose_some hactive]
    exact ⟨rfl, rfl⟩

/-- Caller `n` cleans up; `indeterminate` is what it will say of the object. -/
structure Aborting (n : Nat) (indeterminate cleaning : Bool) (w : World) : Prop where
  claimant : w.claimant = some (.caller n)
  cleaning : inCleanup w.log = cleaning
  mark : ambiguous w.log = true → Calm w.log → indeterminate = true

theorem Aborting.kept {cleaning : Bool} {w' : World} (h : Aborting n indeterminate cleaning w)
    (hinv : Inv cfg w) (hkept : Kept cfg (.caller n) w w') : Aborting n indeterminate cleaning w' := by
  obtain ⟨hclaimant, hcleaning⟩ := hkept.claimant h.claimant
  have hstate : w.state = .aborting := hinv.claims.1 (by rw [h.claimant]; nofun)
  have hamb := (hkept.stopped (.inl hstate)).2
  exact ⟨hclaimant, hcleaning.trans h.cleaning, fun ha hcalm => h.mark (hamb ▸ ha) (hkept.calm hcalm)⟩

theorem Aborting.state {cleaning : Bool} (h : Aborting n indeterminate cleaning w)
    (hinv : Inv cfg w) : w.state = .aborting :=
  hinv.claims.1 (by rw [h.claimant]; nofun)

/-- What an abort that cleaned up, or saw another do so, says. -/
def Truthful (reply : AbortReply) (w : World) : Prop :=
  ∀ err, reply = .cleaned err → Stopped w.state ∧ (ambiguous w.log = true → Calm w.log → Marked err)

theorem Truthful.kept {reply : AbortReply} {w' : World} (h : Truthful reply w) (hkept : Kept cfg i w w') :
    Truthful reply w' := by
  intro err hreply
  obtain ⟨hstopped, hmark⟩ := h err hreply
  obtain ⟨hstopped', hamb⟩ := hkept.stopped hstopped
  exact ⟨hstopped', fun ha hcalm => hmark (hamb ▸ ha) (hkept.calm hcalm)⟩

variable (h : Inv cfg w)
include h

/-- The error that aborts share is read once some abort has finished. -/
theorem Inv.truthful (hended : w.Ended) : Truthful (.cleaned w.abortErr) w := by
  intro err hreply
  cases hreply
  exact ⟨h.stops hended, fun hamb hcalm => (h.marked hended hamb hcalm).2⟩

theorem waitAbort_wp {done : Option Nat} :
    Wp cfg i (fun r v => Inv cfg v ∧ Truthful r v ∧ r ≠ .committed) (waitAbort ctx done) w := by
  refine wp_read rfl h fun u err hu hinv hact => ?_
  cases hact with
  | waitChannelCtx hctx => exact wp_pure hinv fun v _ hinv' => ⟨hinv', nofun, nofun⟩
  | waitChannel hclosed =>
    have hended := hinv.closed _ hclosed
    refine wp_read rfl hinv fun v err hv hinv' hact => ?_
    have hanswer : err = v.abortErr := by
      cases hact
      rfl
    subst hanswer
    have htruthful := hinv'.truthful (hv.ended hended)
    exact wp_pure hinv' fun x hx hinv'' => ⟨hinv'', htruthful.kept hx, nofun⟩

theorem abortClaimed_wp {done : Nat} (habort : Aborting n indeterminate false w) :
    Wp cfg (.caller n) (fun r v => Inv cfg v ∧ Truthful r v ∧ r ≠ .committed) (abortClaimed ctx done indeterminate) w := by
  refine cancel_wp h fun u hu hinv => ?_
  have habort := habort.kept h hu
  refine lockedDiscard_wp (K := Aborting n indeterminate false) (fun x y hkept hinv' hx => hx.kept hinv' hkept)
    (fun x mu hx => ⟨hx.claimant, hx.cleaning, hx.mark⟩) (fun x hx => ?_) hinv (.inr (.inl (habort.state hinv))) habort
    fun v hinv' _ hv => ?_
  · obtain ⟨hclaimant, hlog⟩ := discardAndClose_frame x
    exact ⟨hclaimant.trans hx.claimant, by rw [hlog]; exact hx.cleaning, by rw [hlog]; exact hx.mark⟩
  refine wp_op hinv' fun x hx hinv'' a x' hact => ?_
  have hv := hv.kept hinv' hx
  have hstate := hv.state hinv''
  cases hact
  have hstopped : Stopped x.state := .inl hstate
  have hwritten : written (x.log ++ [.cleanupBegan]) = written x.log := by rw [written_append, List.append_nil]
  have hidle : inCommit x.log = false := by
    rw [Bool.eq_false_iff]
    exact fun hin => absurd (hstate.symm.trans (hinv''.commits hin)) nofun
  have hbegan : Inv cfg { x with log := x.log ++ [.cleanupBegan] } := by
    refine hinv''.record .cleanupBegan ⟨hidle, hv.cleaning⟩ (fun hin => ?_) (fun _ => .inr ⟨n, hv.claimant⟩)
      (fun _ => hstopped) nofun nofun (absurd hstopped.bad) (fun _ => hwritten) nofun fun hamb => ?_
    · rw [inCommit_append] at hin
      exact absurd (hidle.symm.trans hin) nofun
    · rw [ambiguous_append] at hamb
      exact .inl hamb
  refine ⟨fun j hj => Kept.record hbegan (fun _ => hwritten) (fun _ => ⟨inCommit_append _ _, ambiguous_append _ _⟩)
    (fun hc => absurd (Option.mem_unique hc hv.claimant) hj) fun _ => ambiguous_append _ _, ?_⟩
  have habort' : Aborting n indeterminate true { x with log := x.log ++ [.cleanupBegan] } :=
    ⟨hv.claimant, inCleanup_append _ _, fun hamb hcalm => hv.mark ((ambiguous_append _ _).symm.trans hamb) hcalm.of_append⟩
  refine wp_op hbegan fun y hy hinv₃ backendErr y' hact => ?_
  have hy' := habort'.kept hbegan hy
  cases hact
  have hstate' := hy'.state hinv₃
  have hbad' : Bad y.state := .inr (.inl hstate')
  have hwritten' : written (y.log ++ [.cleanupEnded backendErr]) = written y.log := by rw [written_append, List.append_nil]
  have hended : Inv cfg { y with log := y.log ++ [.cleanupEnded backendErr] } := by
    refine hinv₃.record (.cleanupEnded backendErr) trivial (fun hin => ?_) (fun hin => ?_) nofun nofun nofun (absurd hbad')
      (fun _ => hwritten') nofun fun hamb => ?_
    · rw [inCommit_append] at hin
      exact absurd (hstate'.symm.trans (hinv₃.commits hin)) nofun
    · rw [inCleanup_append] at hin
      cases hin
    · rw [ambiguous_append] at hamb
      exact .inl hamb
  refine ⟨fun j hj => Kept.record hended (fun _ => hwritten') (fun _ => ⟨inCommit_append _ _, ambiguous_append _ _⟩)
    (fun hc => absurd (Option.mem_unique hc hy'.claimant) hj) fun _ => ambiguous_append _ _, ?_⟩
  have habort'' : Aborting n indeterminate false { y with log := y.log ++ [.cleanupEnded backendErr] } :=
    ⟨hy'.claimant, inCleanup_append _ _,
      fun hamb hcalm => hy'.mark ((ambiguous_append _ _).symm.trans hamb) hcalm.of_append⟩
  refine wp_op hended fun z hz hinv₄ a z' hact => ?_
  have hz' := habort''.kept hended hz
  cases hact
  have hspawn := hinv₄.spawn hz'.claimant hz'.cleaning backendErr indeterminate hz'.mark
  exact ⟨fun j hj => Kept.spawn hz'.claimant hj hspawn, waitAbort_wp hspawn⟩

/-- The section of `Abort` in which it takes the upload over. -/
theorem claim_spec (hcompleted : w.state ≠ .completed)
    (hcommitting : w.state ≠ .committing) (haborting : w.state ≠ .aborting)
    (hmark : ambiguous w.log = true → Calm (w.log ++ [.abortBegan w.state indeterminate]) → indeterminate = true) :
    (∀ j, Kept cfg j w (w.claim (.caller n) indeterminate).2) ∧ Inv cfg (w.claim (.caller n) indeterminate).2 ∧
      Aborting n indeterminate false (w.claim (.caller n) indeterminate).2 := by
  have hclaimant : w.claimant = none := by
    by_contra hne
    exact haborting (h.claims.1 hne)
  have hrecord : ∀ j, Kept cfg j w { w with log := w.log ++ [.abortBegan w.state indeterminate] } :=
    fun j => Kept.recordSilent h rfl trivial
  have hinv := (hrecord (.caller n)).inv h
  have hinv' : Inv cfg (w.claim (.caller n) indeterminate).2 := hinv.claim hcommitting haborting
  refine ⟨fun j => (hrecord j).trans (Kept.claim hinv' hinv hcompleted hcommitting haborting), hinv', rfl, ?_, ?_⟩
  · exact (inCleanup_append _ _).trans (h.idleCleanup hclaimant)
  · intro hamb hcalm
    exact hmark ((ambiguous_append _ _).symm.trans hamb) hcalm

theorem abort_wp :
    Wp cfg (.caller n) (fun r v => Inv cfg v ∧ Truthful r v ∧ (w.state = .completed → r = .committed)) (abort ctx) w := by
  refine wp_op h fun u hu hinv a u' hact => ?_
  cases hact
  have hother : ∀ {r : AbortReply}, u.state ≠ .completed → w.state = .completed → r = .committed :=
    fun hne hs => absurd (hu.final hs).1 hne
  have hrefl : ∀ j, j ≠ .caller n → Kept cfg j u u := fun j _ => Kept.refl cfg j u
  -- the abort that has the upload
  have hclaim : ∀ indeterminate, u.claimAbort (.caller n) = u.claim (.caller n) indeterminate → u.state ≠ .completed →
      u.state ≠ .committing → u.state ≠ .aborting →
      (ambiguous u.log = true → Calm (u.log ++ [.abortBegan u.state indeterminate]) → indeterminate = true) →
      (∀ j, j ≠ .caller n → Kept cfg j u (u.claimAbort (.caller n)).2) ∧
      Wp cfg (.caller n) (fun r v => Inv cfg v ∧ Truthful r v ∧ (w.state = .completed → r = .committed))
        (match (u.claimAbort (.caller n)).1 with
          | .completed => pure .committed
          | .committing => pure .commitInProgress
          | .finished err => pure (.cleaned err)
          | .wait done => waitAbort ctx done
          | .claimed done indeterminate => abortClaimed ctx done indeterminate) (u.claimAbort (.caller n)).2 := by
    intro indeterminate heq hcompleted hcommitting haborting hmark
    obtain ⟨hkept, hinv', habort⟩ := claim_spec hinv hcompleted hcommitting haborting hmark
    rw [heq]
    refine ⟨fun j _ => hkept j, ?_⟩
    exact Env.wp_mono (fun r v hv => ⟨hv.1, hv.2.1, hother hcompleted⟩) (abortClaimed_wp hinv' habort)
  -- an upload that was never sealed has no commit in doubt
  have hsure : u.state ≠ .sealed → ¬Settled u.state → ¬Stopped u.state → ambiguous u.log = true → False :=
    fun hsealed hsettled hstopped hamb => by
      rcases hinv.unsure hamb with hs | hs | hs | hs
      · exact hsealed hs
      · exact hsettled (.inl hs)
      · exact hsettled (.inr (.inr hs))
      · exact hstopped hs
  have hfresh : ∀ s, u.state = s → s = .opened ∨ s = .sealing ∨ s = .failed →
      u.claimAbort (.caller n) = u.claim (.caller n) false → _ := fun s hs hor heq => by
    have hne : s ≠ .completed ∧ s ≠ .committing ∧ s ≠ .aborting ∧ s ≠ .sealed ∧ ¬Settled s ∧ ¬Stopped s := by
      rcases hor with rfl | rfl | rfl <;> decide
    obtain ⟨hcompleted, hcommitting, haborting, hsealed, hsettled, hstopped⟩ := hne
    subst hs
    exact hclaim false heq hcompleted hcommitting haborting fun hamb => (hsure hsealed hsettled hstopped hamb).elim
  cases hs : u.state with
  | completed =>
    rw [show u.claimAbort (.caller n) = (.completed, u) by simp only [World.claimAbort, hs]]
    exact ⟨hrefl, wp_pure hinv fun v _ hinv' => ⟨hinv', nofun, fun _ => rfl⟩⟩
  | committing =>
    rw [show u.claimAbort (.caller n) = (.committing, u) by simp only [World.claimAbort, hs]]
    exact ⟨hrefl, wp_pure hinv fun v _ hinv' => ⟨hinv', nofun, hother (by rw [hs]; nofun)⟩⟩
  | aborting =>
    rw [show u.claimAbort (.caller n) = (.wait u.abortDone, u) by simp only [World.claimAbort, hs]]
    refine ⟨hrefl, Env.wp_mono (fun r v hv => ⟨hv.1, hv.2.1, hother (by rw [hs]; nofun)⟩) (waitAbort_wp hinv)⟩
  | aborted =>
    have hended := hinv.finished hs
    by_cases hcleanup : u.cleanupErr = none
    · rw [show u.claimAbort (.caller n) = (.finished u.abortErr, u) by
        simp only [World.claimAbort, hs, if_pos hcleanup]]
      refine ⟨hrefl, wp_pure hinv fun v hv hinv' => ⟨hinv', (hinv.truthful hended).kept hv, hother (by rw [hs]; nofun)⟩⟩
    · refine hclaim u.abortWasIndeterminate ?_ (by rw [hs]; nofun) (by rw [hs]; nofun) (by rw [hs]; nofun)
        fun hamb hcalm => (hinv.marked hended hamb hcalm.of_append).1
      simp only [World.claimAbort, hs, if_neg hcleanup]
  | indeterminate =>
    refine hclaim true ?_ (by rw [hs]; nofun) (by rw [hs]; nofun) (by rw [hs]; nofun) fun _ _ => rfl
    simp only [World.claimAbort, hs]
  | «sealed» =>
    refine hclaim false ?_ (by rw [hs]; nofun) (by rw [hs]; nofun) (by rw [hs]; nofun) fun _ hcalm => ?_
    · simp only [World.claimAbort, hs]
    · exact absurd hs (hcalm u.state false (List.mem_append_right _ (List.mem_singleton_self _)))
  | opened => exact hfresh _ hs (.inl rfl) (by simp only [World.claimAbort, hs])
  | sealing => exact hfresh _ hs (.inr (.inl rfl)) (by simp only [World.claimAbort, hs])
  | failed => exact hfresh _ hs (.inr (.inr rfl)) (by simp only [World.claimAbort, hs])

/-- The goroutine closes the channel once it has finished the abort. -/
theorem finishAbort_wp {backendErr : Option Err} (hspawned : w.spawned[n]? = some ⟨backendErr, indeterminate, false⟩) :
    Wp cfg (.finisher n) (fun _ v => Inv cfg v) (finishAbort backendErr indeterminate) w := by
  refine wp_read rfl h fun u _ hu hinv _ => wp_op hinv fun v hv hinv' done v' hact => ?_
  have hspawned := (hu.trans hv).spawned n _ rfl hspawned
  cases hact with
  | @finishAbort m _ _ hm =>
    obtain rfl := Tid.finisher.inj hm
    have hfinished := hinv'.finishAbort hspawned
    refine ⟨fun j hj => Kept.finishAbort hinv' hspawned hj, ?_⟩
    have hended : (v.finishAbort n backendErr indeterminate).Ended := hfinished.finished rfl
    generalize v.abortDone = done
    rw [← bind_pure (op _)]
    refine wp_op hfinished fun x hx hinv'' a x' hact => ?_
    have hended' := hx.ended hended
    cases hact with
    | @closeChannel d =>
      have hkept : ∀ j, Kept cfg j x { x with channels := x.channels.set d true } := fun j => Kept.closeChannel d hended'
      exact ⟨fun j _ => hkept j, wp_pure ((hkept (.finisher n)).inv hinv'') fun y _ hinv₃ => hinv₃⟩

end ObjLog.Stream
