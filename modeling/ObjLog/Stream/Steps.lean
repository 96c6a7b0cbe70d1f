import ObjLog.Stream.Invariant
/-!
# Each operation keeps the invariant

One lemma for each operation that changes the upload, under what the thread that
performs it knows: the invariant still holds, and the others find what they count
on.
-/

namespace ObjLog.Stream

open Lib Multipart

variable {e : Event} {n : Nat}

variable [Hashes] {cfg : Settings} {w : World} {i j : Tid}

/-! ## Locks -/

theorem Inv.lockWrite (h : Inv cfg w) : Inv cfg { w with writeMu := some i } :=
  { h with
    idleRoom := nofun
    full := nofun
    accepted := fun hbad hor => h.accepted hbad (.inr (hor.resolve_left nofun)) }

theorem Kept.lockWrite (h : Inv cfg w) (hfree : w.writeMu = none) : Kept cfg j w { w with writeMu := some i } :=
  { Kept.refl cfg j w with
    inv := fun _ => h.lockWrite
    writeMu := fun hj => absurd (hfree.symm.trans hj) nofun }

theorem Inv.unlockWrite (h : Inv cfg w) (hroom : w.activeBytes < cfg.partSize)
    (hfull : w.jobsClosed = false → ∀ p ∈ w.parts, p.length = cfg.partSize)
    (hwritten : ¬Bad w.state → w.hashed = written w.log) : Inv cfg { w with writeMu := none } :=
  { h with
    idleRoom := fun _ => hroom
    full := fun _ => hfull
    accepted := fun hbad _ => hwritten hbad }

theorem Kept.unlockWrite (hi : w.writeMu = some i) (hj : j ≠ i) (hinv : Inv cfg { w with writeMu := none }) :
    Kept cfg j w { w with writeMu := none } :=
  { Kept.refl cfg j w with
    inv := fun _ => hinv
    writeMu := fun h => absurd (Option.mem_unique h hi) hj }

theorem Inv.lockCommit (h : Inv cfg w) : Inv cfg { w with commitMu := some i } :=
  { h with idleCommit := nofun }

theorem Kept.lockCommit (h : Inv cfg w) (hfree : w.commitMu = none) : Kept cfg j w { w with commitMu := some i } :=
  { Kept.refl cfg j w with
    inv := fun _ => h.lockCommit
    commitMu := fun hj => absurd (hfree.symm.trans hj) nofun }

theorem Inv.unlockCommit (h : Inv cfg w) (hidle : inCommit w.log = false) : Inv cfg { w with commitMu := none } :=
  { h with idleCommit := fun _ => hidle }

theorem Kept.unlockCommit (hi : w.commitMu = some i) (hj : j ≠ i) (hinv : Inv cfg { w with commitMu := none }) :
    Kept cfg j w { w with commitMu := none } :=
  { Kept.refl cfg j w with
    inv := fun _ => hinv
    commitMu := fun h => absurd (Option.mem_unique h hi) hj }

theorem Kept.cancel (cause : Option Err) : Kept cfg j w { w with cause := cause } :=
  { Kept.refl cfg j w with inv := fun h => { h with } }

/-! ## The state -/

/-- The upload fails. -/
theorem Inv.fail (h : Inv cfg w) (err : Err) (hstopped : ¬Stopped w.state) (hidle : inCommit w.log = false)
    (hsure : ambiguous w.log = false) : Inv cfg { w with firstErr := some err, state := .failed } :=
  have hclaimant : w.claimant = none := by
    by_contra hne
    exact hstopped (.inl (h.claims.1 hne))
  { h with
    claims := ⟨fun hne => absurd hclaimant hne, nofun⟩
    failedErr := nofun
    goodErr := fun hbad => absurd (.inl rfl) hbad
    settled := fun hs => absurd hs (by decide : ¬Settled .failed)
    sealedJobs := nofun
    openJobs := fun _ => nofun
    commits := fun hin => absurd (hidle.symm.trans hin) nofun
    cleaned := fun hmem => absurd (h.cleaned hmem) hstopped
    torn := fun _ => .inl rfl
    bytes := fun hbad => absurd (.inl rfl) hbad
    accepted := fun hbad => absurd (.inl rfl) hbad
    sent := fun hbad => absurd (.inl rfl) hbad
    outcome := nofun
    unsure := fun hamb => absurd (hsure.symm.trans hamb) nofun
    finished := nofun
    stops := fun hended => absurd (h.stops hended) hstopped }

theorem Kept.fail {err : Err} (hinv : Inv cfg { w with firstErr := some err, state := .failed })
    (hstopped : ¬Stopped w.state) (hcompleted : w.state ≠ .completed)
    (hcommit : w.commitMu = some j → w.state ≠ .committing) :
    Kept cfg j w { w with firstErr := some err, state := .failed } :=
  { Kept.refl cfg j w with
    inv := fun _ => hinv
    opened := fun _ _ => .inr (.inl rfl)
    drift := fun hj => .inr ⟨hcompleted, hcommit hj, .inl rfl⟩
    stopped := fun hs => absurd hs hstopped
    bad := fun _ => .inl rfl
    final := fun hs => absurd hs hcompleted }

/-- The state moves among those from which the upload can still succeed. -/
theorem Inv.setState (h : Inv cfg w) (s : UploadState) (attrs : ObjectAttrs) (hgood : ¬Bad w.state) (hgood' : ¬Bad s)
    (hsettled : Settled s → w.done = true ∧ w.jobsClosed = true) (hsealed : s = .sealed → w.jobsClosed = true)
    (hopen : w.jobsClosed = true → s ≠ .opened) (hcommits : inCommit w.log = true → s = .committing)
    (hunsure : ambiguous w.log = true → s = .sealed ∨ s = .committing ∨ s = .indeterminate)
    (houtcome : s = .completed → ∃ request, .commitEnded request (.ok attrs) ∈ w.log) :
    Inv cfg { w with completed := attrs, state := s } :=
  { h with
    claims := ⟨fun hne => absurd (.inr (.inl (h.claims.1 hne))) hgood, fun hs => absurd (.inr (.inl hs)) hgood'⟩
    failedErr := fun hs => absurd (.inl hs) hgood'
    goodErr := fun _ => h.goodErr hgood
    settled := hsettled
    sealedJobs := hsealed
    openJobs := hopen
    commits := hcommits
    cleaned := fun hmem => absurd (h.cleaned hmem).bad hgood
    torn := fun ht => absurd (h.torn ht) hgood
    bytes := fun _ => h.bytes hgood
    accepted := fun _ => h.accepted hgood
    sent := fun _ => h.sent hgood
    outcome := houtcome
    unsure := fun hamb => (hunsure hamb).imp_right (.imp_right .inl)
    finished := fun hs => absurd (.inr (.inr hs)) hgood'
    stops := fun hended => absurd (h.stops hended).bad hgood }

theorem Kept.setState {s : UploadState} (attrs : ObjectAttrs) (hinv : Inv cfg { w with completed := attrs, state := s })
    (hgood : ¬Bad w.state) (hcompleted : w.state ≠ .completed) (hcommit : w.commitMu ≠ some j)
    (hopen : w.writeMu = some j → w.state ≠ .opened) : Kept cfg j w { w with completed := attrs, state := s } :=
  { Kept.refl cfg j w with
    inv := fun _ => hinv
    opened := fun hj hs => absurd hs (hopen hj)
    drift := fun hj => absurd hj hcommit
    stopped := fun hs => absurd hs.bad hgood
    bad := fun hs => absurd hs hgood
    final := fun hs => absurd hs hcompleted }

/-- An abort takes the upload over. -/
theorem Inv.claim (h : Inv cfg w) (hcommitting : w.state ≠ .committing) (haborting : w.state ≠ .aborting) :
    Inv cfg { w with
      state := .aborting
      abortDone := some w.channels.length
      channels := w.channels ++ [false]
      claimant := some i } :=
  have hclaimant : w.claimant = none := by
    by_contra hne
    exact haborting (h.claims.1 hne)
  -- a finisher that has not finished is the claimant
  have hfinished : ∀ (n : Nat) (f : Finisher), w.spawned[n]? = some f → f.finished ≠ false := fun n f hf hfin =>
    absurd (hclaimant.symm.trans (h.finishers n f hf hfin).1) nofun
  { h with
    claims := ⟨fun _ => rfl, fun _ => nofun⟩
    finishers := fun n f hf hfin => absurd hfin (hfinished n f hf)
    failedErr := nofun
    goodErr := fun hbad => absurd (.inr (.inl rfl)) hbad
    settled := fun hs => absurd hs (by decide : ¬Settled .aborting)
    sealedJobs := nofun
    openJobs := fun _ => nofun
    commits := fun hin => absurd (h.commits hin) hcommitting
    idleCleanup := nofun
    cleaned := fun _ => .inl rfl
    torn := fun _ => .inr (.inl rfl)
    bytes := fun hbad => absurd (.inr (.inl rfl)) hbad
    accepted := fun hbad => absurd (.inr (.inl rfl)) hbad
    sent := fun hbad => absurd (.inr (.inl rfl)) hbad
    outcome := nofun
    unsure := fun _ => .inr (.inr (.inr (.inl rfl)))
    finished := nofun
    stops := fun _ => .inl rfl
    marks := fun n f hf hfin => absurd hfin (hfinished n f hf)
    closed := fun d hd => h.closed d ((getElem?_concat hd).resolve_right nofun) }

theorem Kept.claim {done : Option Nat} {channels : List Bool}
    (hinv : Inv cfg { w with state := .aborting, abortDone := done, channels := channels, claimant := some i })
    (h : Inv cfg w) (hcompleted : w.state ≠ .completed) (hcommitting : w.state ≠ .committing)
    (haborting : w.state ≠ .aborting) :
    Kept cfg j w { w with state := .aborting, abortDone := done, channels := channels, claimant := some i } :=
  { Kept.refl cfg j w with
    inv := fun _ => hinv
    opened := fun _ _ => .inr (.inr (.inl rfl))
    drift := fun _ => .inr ⟨hcompleted, hcommitting, .inr (.inl rfl)⟩
    claimant := fun hj => absurd (h.claims.1 (by rw [hj]; nofun)) haborting
    stopped := fun _ => ⟨.inl rfl, rfl⟩
    bad := fun _ => .inr (.inl rfl)
    final := fun hs => absurd hs hcompleted }

/-- The abort leaves the rest to a goroutine of its own. -/
theorem Inv.spawn (h : Inv cfg w) (hclaim : w.claimant = some (.caller n)) (hidle : inCleanup w.log = false)
    (err : Option Err) (indeterminate : Bool) (hmark : ambiguous w.log = true → Calm w.log → indeterminate = true) :
    Inv cfg { w with
      spawned := w.spawned ++ [⟨err, indeterminate, false⟩]
      claimant := some (.finisher w.spawned.length) } :=
  have hcases : ∀ (m : Nat) (f : Finisher), (w.spawned ++ [⟨err, indeterminate, false⟩])[m]? = some f →
      f.finished = false → m = w.spawned.length ∧ f = ⟨err, indeterminate, false⟩ := fun m f hf hfin => by
    refine (getElem?_concat hf).resolve_left fun hf => ?_
    exact absurd (hclaim.symm.trans (h.finishers m f hf hfin).1) nofun
  have hended : w.Ended → ∃ (m : Nat) (f : Finisher),
      (w.spawned ++ [⟨err, indeterminate, false⟩])[m]? = some f ∧ f.finished = true :=
    fun ⟨m, f, hf, hfin⟩ => ⟨m, f, getElem?_append_of_some hf _, hfin⟩
  have hended' : (∃ (m : Nat) (f : Finisher),
      (w.spawned ++ [⟨err, indeterminate, false⟩])[m]? = some f ∧ f.finished = true) → w.Ended :=
    fun ⟨m, f, hf, hfin⟩ => by
    rcases getElem?_concat hf with hf | ⟨_, rfl⟩
    · exact ⟨m, f, hf, hfin⟩
    · cases hfin
  { h with
    claims := ⟨fun _ => h.claims.1 (by rw [hclaim]; nofun), fun _ => nofun⟩
    finishers := fun m f hf hfin => by
      obtain ⟨rfl, -⟩ := hcases m f hf hfin
      exact ⟨rfl, hidle⟩
    idleCleanup := nofun
    finished := fun hs => hended (h.finished hs)
    stops := fun he => h.stops (hended' he)
    marks := fun m f hf hfin hamb hcalm => by
      obtain ⟨-, rfl⟩ := hcases m f hf hfin
      exact hmark hamb hcalm
    marked := fun he => h.marked (hended' he)
    closed := fun d hd => hended (h.closed d hd) }

theorem Kept.spawn {f : Finisher} (hclaim : w.claimant = some i) (hj : j ≠ i)
    (hinv : Inv cfg { w with spawned := w.spawned ++ [f], claimant := some (.finisher w.spawned.length) }) :
    Kept cfg j w { w with spawned := w.spawned ++ [f], claimant := some (.finisher w.spawned.length) } :=
  { Kept.refl cfg j w with
    inv := fun _ => hinv
    claimant := fun h => absurd (Option.mem_unique h hclaim) hj
    spawned := fun _ _ _ hg => getElem?_append_of_some hg _
    ended := fun ⟨n, g, hg, hfin⟩ => ⟨n, g, getElem?_append_of_some hg _, hfin⟩ }

/-- The goroutine of an abort finishes it. -/
theorem Inv.finishAbort {err : Option Err} {indeterminate : Bool} (h : Inv cfg w)
    (hf : w.spawned[n]? = some ⟨err, indeterminate, false⟩) : Inv cfg (w.finishAbort n err indeterminate) :=
  have hlt : n < w.spawned.length := (List.getElem?_eq_some_iff.1 hf).1
  have hself : (w.spawned.set n ⟨err, indeterminate, true⟩)[n]? = some ⟨err, indeterminate, true⟩ :=
    List.getElem?_set_self hlt
  -- the only finisher that had not finished is this one
  have hfinished : ∀ (m : Nat) (f : Finisher), (w.spawned.set n ⟨err, indeterminate, true⟩)[m]? = some f →
      f.finished ≠ false := fun m f hm hfin => by
    by_cases hmn : m = n
    · subst hmn
      rw [hself] at hm
      rw [← Option.some.inj hm] at hfin
      cases hfin
    · rw [List.getElem?_set_ne (Ne.symm hmn)] at hm
      have heq := (h.finishers m f hm hfin).1.symm.trans (h.finishers n _ hf rfl).1
      simp only [Option.some.injEq, Tid.finisher.injEq] at heq
      exact hmn heq
  { h with
    claims := ⟨fun hne => absurd rfl hne, nofun⟩
    finishers := fun m f hm hfin => absurd hfin (hfinished m f hm)
    failedErr := nofun
    goodErr := fun hbad => absurd (.inr (.inr rfl)) hbad
    settled := fun hs => absurd hs (by decide : ¬Settled .aborted)
    sealedJobs := nofun
    openJobs := fun _ => nofun
    commits := fun hin => by
      have hstate := (h.claims.1 (by rw [(h.finishers n _ hf rfl).1]; nofun)).symm.trans (h.commits hin)
      cases hstate
    idleCleanup := fun _ => (h.finishers n _ hf rfl).2
    cleaned := fun _ => .inr rfl
    torn := fun _ => .inr (.inr rfl)
    bytes := fun hbad => absurd (.inr (.inr rfl)) hbad
    accepted := fun hbad => absurd (.inr (.inr rfl)) hbad
    sent := fun hbad => absurd (.inr (.inr rfl)) hbad
    outcome := nofun
    unsure := fun _ => .inr (.inr (.inr (.inr rfl)))
    finished := fun _ => ⟨n, _, hself, rfl⟩
    stops := fun _ => .inr rfl
    marks := fun m f hm hfin => absurd hfin (hfinished m f hm)
    marked := fun _ hamb hcalm => by
      obtain rfl : indeterminate = true := h.marks n _ hf rfl hamb hcalm
      exact ⟨rfl, _, rfl, by cases err <;> simp [joinIndeterminate, errCommitIndeterminate, Err.is, Err.bare, Err.join]⟩
    closed := fun _ _ => ⟨n, _, hself, rfl⟩ }

theorem Kept.finishAbort {err : Option Err} {indeterminate : Bool} (h : Inv cfg w)
    (hf : w.spawned[n]? = some ⟨err, indeterminate, false⟩) (hj : j ≠ .finisher n) :
    Kept cfg j w (w.finishAbort n err indeterminate) :=
  have hclaim := (h.finishers n _ hf rfl).1
  have hstate : w.state = .aborting := h.claims.1 (by rw [hclaim]; nofun)
  { Kept.refl cfg j w with
    inv := fun _ => h.finishAbort hf
    opened := fun _ _ => .inr (.inr (.inr rfl))
    drift := fun _ => .inr ⟨by rw [hstate]; nofun, by rw [hstate]; nofun, .inr (.inr rfl)⟩
    claimant := fun hc => absurd (Option.mem_unique hc hclaim) hj
    stopped := fun _ => ⟨.inr rfl, rfl⟩
    bad := fun _ => .inr (.inr rfl)
    final := fun hs => absurd (hstate.symm.trans hs) nofun
    spawned := fun m f hm hget => by
      change (w.spawned.set n _)[m]? = some f
      rw [List.getElem?_set_ne, hget]
      rintro rfl
      exact hj hm
    ended := fun _ => ⟨n, _, List.getElem?_set_self (List.getElem?_eq_some_iff.1 hf).1, rfl⟩ }

theorem Kept.closeChannel (d : Nat) (hended : w.Ended) : Kept cfg j w { w with channels := w.channels.set d true } :=
  { Kept.refl cfg j w with inv := fun h => { h with closed := fun _ _ => hended } }

/-! ## The history -/

/-- What an event asks of the upload. -/
theorem Inv.record (h : Inv cfg w) (e : Event) (hfits : Fits w.log e)
    (hcommit : inCommit (w.log ++ [e]) = true → w.commitMu ≠ none ∧ w.state = .committing)
    (hcleanup : inCleanup (w.log ++ [e]) = true → inCleanup w.log = true ∨ ∃ n, w.claimant = some (.caller n))
    (hcleaned : e = .cleanupBegan → Stopped w.state)
    (hrequest : ∀ request, e = .commitBegan request → w.done = true ∧ w.jobsClosed = true ∧
      (∃ receipts, w.orderedReceipts = .ok receipts) ∧ RequestOk cfg w.parts w.log request)
    (htorn : ∀ data, e = .tore data → Bad w.state)
    (haccepted : ¬Bad w.state → w.writeMu = none ∨ w.jobsClosed = true → w.hashed = written (w.log ++ [e]))
    (hquiet : CommitCalled (w.log ++ [e]) → written (w.log ++ [e]) = written w.log)
    (hended : ∀ request result, e = .commitEnded request result → .commitBegan request ∈ w.log)
    (hunsure : ambiguous (w.log ++ [e]) = true → ambiguous w.log = true ∨ w.state = .committing) :
    Inv cfg { w with log := w.log ++ [e] } :=
  have hold : ∀ x ∈ w.log, x ∈ w.log ++ [e] := fun x hx => List.mem_append_left _ hx
  have hcaller : ∀ {n : Nat} {m : Nat} {f : Finisher}, w.claimant = some (.caller n) → w.spawned[m]? = some f →
      f.finished ≠ false := fun hn hf hfin => absurd (hn.symm.trans (h.finishers _ _ hf hfin).1) nofun
  have hcommitting : w.state = .committing → w.claimant = none ∧ ¬w.Ended := fun hs => by
    refine ⟨?_, fun hend => ?_⟩
    · by_contra hne
      exact absurd (hs.symm.trans (h.claims.1 hne)) nofun
    · exact absurd (hs ▸ h.stops hend) (by decide : ¬Stopped .committing)
  { h with
    finishers := fun n f hf hfin => by
      refine ⟨(h.finishers n f hf hfin).1, ?_⟩
      rw [Bool.eq_false_iff]
      intro hin
      rcases hcleanup hin with hbefore | ⟨c, hc⟩
      · exact absurd ((h.finishers n f hf hfin).2.symm.trans hbefore) nofun
      · exact hcaller hc hf hfin
    orderly := .snoc h.orderly hfits
    idleCommit := fun hmu => by
      rw [Bool.eq_false_iff]
      exact fun hin => (hcommit hin).1 hmu
    commits := fun hin => (hcommit hin).2
    idleCleanup := fun hc => by
      rw [Bool.eq_false_iff]
      intro hin
      rcases hcleanup hin with hbefore | ⟨n, hn⟩
      · exact absurd ((h.idleCleanup hc).symm.trans hbefore) nofun
      · exact absurd (hc.symm.trans hn) nofun
    cleaned := fun hmem => by
      rcases mem_concat.1 hmem with hmem | hmem
      · exact h.cleaned hmem
      · exact hcleaned hmem.symm
    called := fun hc => by
      rcases (commitCalled_append _ _).1 hc with hc | ⟨request, hrq⟩
      · exact h.called hc
      · exact ⟨(hrequest request hrq).1, (hrequest request hrq).2.1⟩
    torn := fun ht => by
      rcases (torn_append _ _).1 ht with ht | ⟨data, hd⟩
      · exact h.torn ht
      · exact htorn data hd
    receipts := fun k r hr => by
      obtain ⟨hnumber, n, part, hk, hpart, hfor⟩ := h.receipts k r hr
      exact ⟨hnumber, n, part, hk, hpart, hfor.mono hold⟩
    accepted := haccepted
    requests := fun request hmem => by
      have hquiet := hquiet ⟨request, hmem⟩
      rcases mem_concat.1 hmem with hmem | hmem
      · exact (h.requests request hmem).mono hold hquiet
      · exact (hrequest request hmem.symm).2.2.2.mono hold hquiet
    ended := fun request result hmem => by
      rcases mem_concat.1 hmem with hmem | hmem
      · exact hold _ (h.ended request result hmem)
      · exact hold _ (hended request result hmem.symm)
    outcome := fun hs => by
      obtain ⟨request, hmem⟩ := h.outcome hs
      exact ⟨request, hold _ hmem⟩
    retry := fun hc => by
      rcases (commitCalled_append _ _).1 hc with hc | ⟨request, hrq⟩
      · exact h.retry hc
      · exact (hrequest request hrq).2.2.1
    unsure := fun hamb => by
      rcases hunsure hamb with hbefore | hs
      · exact h.unsure hbefore
      · exact .inr (.inl hs)
    marks := fun n f hf hfin hamb hcalm => by
      rcases hunsure hamb with hbefore | hs
      · exact h.marks n f hf hfin hbefore hcalm.of_append
      · exact absurd ((hcommitting hs).1.symm.trans (h.finishers n f hf hfin).1) nofun
    marked := fun hend hamb hcalm => by
      rcases hunsure hamb with hbefore | hs
      · exact h.marked hend hbefore hcalm.of_append
      · exact absurd hend (hcommitting hs).2 }

theorem Kept.record (hinv : Inv cfg { w with log := w.log ++ [e] })
    (hwrite : w.writeMu = some j → written (w.log ++ [e]) = written w.log)
    (hcommit : w.commitMu = some j → inCommit (w.log ++ [e]) = inCommit w.log ∧
      ambiguous (w.log ++ [e]) = ambiguous w.log)
    (hclaim : w.claimant = some j → inCleanup (w.log ++ [e]) = inCleanup w.log)
    (hstopped : Stopped w.state → ambiguous (w.log ++ [e]) = ambiguous w.log) :
    Kept cfg j w { w with log := w.log ++ [e] } :=
  { Kept.refl cfg j w with
    inv := fun _ => hinv
    writeMu := fun hj => by
      refine ⟨hj, ?_⟩
      simp only [World.hand, hwrite hj]
    commitMu := fun hj => ⟨hj, hcommit hj⟩
    claimant := fun hj => ⟨hj, hclaim hj⟩
    stopped := fun hs => ⟨hs, hstopped hs⟩
    log := fun x hx => List.mem_append_left _ hx }

/-- An event that is no call of the session's `Commit` or `Cleanup`. -/
theorem Inv.recordQuiet (h : Inv cfg w) (he : e.calls = false) (hfits : Fits w.log e)
    (htorn : ∀ data, e = .tore data → Bad w.state)
    (haccepted : ¬Bad w.state → w.writeMu = none ∨ w.jobsClosed = true → w.hashed = written (w.log ++ [e]))
    (hquiet : CommitCalled w.log → written (w.log ++ [e]) = written w.log) :
    Inv cfg { w with log := w.log ++ [e] } := by
  obtain ⟨hcommit, hcleanup, hamb⟩ := append_quiet w.log he
  refine h.record e hfits (fun hin => ?_) (fun hin => .inl (hcleanup ▸ hin)) ?_ ?_ htorn haccepted (fun hc => ?_) ?_
    fun hin => .inl (hamb ▸ hin)
  · rw [hcommit] at hin
    refine ⟨fun hmu => ?_, h.commits hin⟩
    exact absurd ((h.idleCommit hmu).symm.trans hin) nofun
  · rintro rfl
    cases he
  · rintro request rfl
    cases he
  · refine hquiet (((commitCalled_append _ _).1 hc).resolve_right ?_)
    rintro ⟨request, rfl⟩
    cases he
  · rintro request result rfl
    cases he

theorem Kept.recordQuiet (hinv : Inv cfg { w with log := w.log ++ [e] }) (he : e.calls = false)
    (hwrite : w.writeMu = some j → written (w.log ++ [e]) = written w.log) :
    Kept cfg j w { w with log := w.log ++ [e] } := by
  obtain ⟨hcommit, hcleanup, hamb⟩ := append_quiet w.log he
  exact Kept.record hinv hwrite (fun _ => ⟨hcommit, hamb⟩) (fun _ => hcleanup) fun _ => hamb

/-- The parts and the aborts leave every other reading of the history as it is. -/
def Event.silent : Event → Bool
  | .putBegan _ _ | .putEnded _ _ _ _ | .abortBegan _ _ => true
  | _ => false

theorem Kept.recordSilent (h : Inv cfg w) (he : e.silent = true) (hfits : Fits w.log e) :
    Kept cfg j w { w with log := w.log ++ [e] } := by
  have hcalls : e.calls = false := by cases e <;> first | rfl | cases he
  have hwritten : written (w.log ++ [e]) = written w.log := by
    rw [written_append]
    cases e with
    | wrote => cases he
    | _ => exact List.append_nil _
  refine Kept.recordQuiet (h.recordQuiet hcalls hfits ?_ (fun hbad hor => ?_) fun _ => hwritten) hcalls fun _ => hwritten
  · rintro data rfl
    cases he
  · rw [hwritten]
    exact h.accepted hbad hor

end ObjLog.Stream
