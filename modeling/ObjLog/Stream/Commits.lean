import ObjLog.Stream.Threads
import ObjLog.Stream.Writes
/-!
# `Commit`

One caller commits at a time. It calls the session only once the workers have
returned and the jobs are closed, and a commit that succeeded is not undone.
-/

namespace ObjLog.Stream

open Lib Multipart

variable {w' : World} {ctx : Nat} {answer : Except Err ObjectAttrs}

variable [Hashes] {cfg : Settings} {i : Tid} {w : World} {α : Type} {Q : α → World → Prop}

/-- Thread `i` holds `commitMu`, and no call of the session's `Commit` is under way. -/
structure Sole (cfg : Settings) (i : Tid) (w : World) : Prop where
  inv : Inv cfg w
  lock : w.commitMu = some i
  idle : inCommit w.log = false

theorem Sole.kept (h : Sole cfg i w) (hkept : Kept cfg i w w') : Sole cfg i w' :=
  ⟨hkept.inv h.inv, (hkept.commitMu h.lock).1, (hkept.commitMu h.lock).2.1.trans h.idle⟩

theorem Sole.ne {j : Tid} (h : Sole cfg i w) (hj : j ≠ i) : w.commitMu ≠ some j :=
  fun hmu => hj (Option.mem_unique hmu h.lock)

omit [Hashes] in
theorem activeContents_of_hand (h : w'.hand = w.hand) : w'.activeContents = w.activeContents := by
  injection h with hactive hbytes _ _ _ _ _ _ hbuffer
  refine World.activeContents_congr hactive hbytes fun b hb => ?_
  rw [hactive, hb, Option.map_some, Option.map_some] at hbuffer
  exact congrArg Buffer.bytes (Option.some.inj hbuffer)

/-! ## Sealing -/

/-- Thread `i` seals the stream: it holds both locks. -/
structure Seals (cfg : Settings) (i : Tid) (w : World) : Prop where
  tidy : Tidy cfg i w
  sole : Sole cfg i w

theorem Seals.kept (h : Seals cfg i w) (hkept : Kept cfg i w w') : Seals cfg i w' :=
  ⟨h.tidy.kept hkept, h.sole.kept hkept⟩

theorem Seals.inv (h : Seals cfg i w) : Inv cfg w := h.tidy.inv

/-- The state is `sealing` until the upload fails or is aborted. -/
theorem sealing_kept (h : Sole cfg i w) (hs : w.state = .sealing ∨ Bad w.state) (hkept : Kept cfg i w w') :
    w'.state = .sealing ∨ Bad w'.state := by
  rcases hs with hs | hs
  · rcases hkept.drift h.lock with hd | ⟨-, -, hbad⟩
    · exact .inl (hd.trans hs)
    · exact .inr hbad
  · exact .inr (hkept.bad hs)

/-- The state moves under both locks, and the bytes stay as they are. -/
theorem Seals.setState (h : Seals cfg i w) (s : UploadState) (hgood : ¬Bad w.state) (hcompleted : w.state ≠ .completed)
    (hgood' : ¬Bad s) (hunsettled : ¬Settled s) (hsealed : s = .sealed → w.jobsClosed = true)
    (hopen : w.jobsClosed = true → s ≠ .opened) (hunsure : ambiguous w.log = true → s = .sealed) :
    (∀ j, j ≠ i → Kept cfg j w { w with state := s }) ∧ Seals cfg i { w with state := s } := by
  have hinv : Inv cfg { w with state := s } := h.inv.setState s w.completed hgood hgood' (absurd · hunsettled) hsealed hopen
    (fun hin => absurd (h.sole.idle.symm.trans hin) nofun) (fun hamb => .inl (hunsure hamb))
    fun hs => absurd (.inr (.inl hs)) hunsettled
  refine ⟨fun j hj => ?_, ⟨hinv, h.tidy.lock, h.tidy.room, h.tidy.full, fun _ => h.tidy.accepted hgood⟩,
    ⟨hinv, h.sole.lock, h.sole.idle⟩⟩
  exact Kept.setState w.completed hinv hgood hcompleted (h.sole.ne hj)
    fun hmu => absurd (Option.mem_unique hmu h.tidy.lock) hj

theorem discard_seals {f : Unit → P α} (h : Seals cfg i w) (hbad : Bad w.state)
    (hstep : ∀ v, Seals cfg i v → Wp cfg i Q (f ()) v) : Wp cfg i Q (op .discard >>= f) w := by
  refine discard_wp h.inv h.tidy.lock hbad fun u hu _ htidy => hstep _ ⟨htidy, ?_⟩
  have hsole := h.sole.kept hu
  rcases Option.eq_none_or_eq_some u.active with hactive | ⟨b, hactive⟩
  · rw [discardAndClose_none hactive] at htidy ⊢
    exact ⟨htidy.inv, hsole.lock, hsole.idle⟩
  · rw [discardAndClose_some hactive] at htidy ⊢
    exact ⟨htidy.inv, hsole.lock, hsole.idle⟩

/-- The last part could not be sent: the stream is open again, or cannot succeed. -/
theorem unsealJobs_wp {err : Err} (h : Seals cfg i w) (hs : w.state = .sealing ∨ Bad w.state) (hopen : w.jobsClosed = false) :
    Wp cfg i (fun r v => Seals cfg i v ∧ r.err ≠ none) (unsealJobs err) w := by
  refine wp_op h.inv fun u hu hinv a u' hact => ?_
  have hseals := h.kept hu
  have hs := sealing_kept h.sole hs hu
  have hopen : u.jobsClosed = false := (congrArg Hand.jobsClosed (hu.writeMu h.tidy.lock).2).trans hopen
  cases hact
  have hreopen : (∀ j, j ≠ i → Kept cfg j u u.reopen) ∧ Seals cfg i u.reopen ∧ (Bad u.state → Bad u.reopen.state) := by
    unfold World.reopen
    split
    · rename_i hsealing
      have hgood : ¬Bad u.state := by rw [hsealing]; decide
      have hstep := hseals.setState .opened hgood (by rw [hsealing]; nofun) (by decide) (by decide) nofun
        (fun hc => absurd (hopen.symm.trans hc) nofun) fun hamb => by
          rcases hinv.unsure hamb with hx | hx | hx | hx
          · exact absurd (hsealing.symm.trans hx) nofun
          · exact absurd (hsealing.symm.trans hx) nofun
          · exact absurd (hsealing.symm.trans hx) nofun
          · exact absurd hx.bad hgood
      exact ⟨hstep.1, hstep.2, fun hbad => absurd hbad hgood⟩
    · exact ⟨fun j _ => Kept.refl cfg j u, hseals, id⟩
  obtain ⟨hothers, hseals', hbad⟩ := hreopen
  refine ⟨hothers, ?_⟩
  split
  · rename_i hfailed
    refine discard_seals hseals' (hbad (.inl hfailed)) fun v hv => ?_
    exact wp_read rfl hv.inv fun x failure hx hinv' _ => wp_pure hinv' fun y hy _ => ⟨hv.kept (hx.trans hy), nofun⟩
  · split
    · rename_i hstopped
      refine discard_seals hseals' (hbad (.inr hstopped)) fun v hv => ?_
      exact wp_pure hv.inv fun y hy _ => ⟨hv.kept hy, nofun⟩
    · exact wp_pure hseals'.inv fun y hy _ => ⟨hseals'.kept hy, nofun⟩

/-- Thread `i` seals the stream and has nothing left to send. The last part may be short. -/
structure Emptied (cfg : Settings) (i : Tid) (w : World) : Prop where
  sole : Sole cfg i w
  lock : w.writeMu = some i
  room : w.activeBytes < cfg.partSize
  accepted : ¬Bad w.state → w.hashed = written w.log
  state : w.state = .sealing ∨ Bad w.state
  contents : ¬Bad w.state → w.activeContents = []

theorem Emptied.kept (h : Emptied cfg i w) (hkept : Kept cfg i w w') : Emptied cfg i w' := by
  obtain ⟨hlock, hhand⟩ := hkept.writeMu h.lock
  have hcontents := activeContents_of_hand hhand
  have hgood : ¬Bad w'.state → ¬Bad w.state := fun hbad hbad' => hbad (hkept.bad hbad')
  injection hhand with _ hbytes _ _ hhashed _ _ hwritten _
  refine ⟨h.sole.kept hkept, hlock, hbytes ▸ h.room, fun hbad => ?_, sealing_kept h.sole h.state hkept, fun hbad => ?_⟩
  · rw [hhashed, hwritten]
    exact h.accepted (hgood hbad)
  · rw [hcontents]
    exact h.contents (hgood hbad)

/-- The last part was sent: the stream is sealed, or cannot succeed. -/
theorem finishSeal_wp (h : Emptied cfg i w) :
    Wp cfg i (fun r v => Seals cfg i v ∧ (r.err = none → r.state ≠ .completed)) finishSeal w := by
  refine wp_op h.sole.inv fun u hu hinv a u' hact => ?_
  have hemptied := h.kept hu
  have hs := hemptied.state
  cases hact
  have hclose : Inv cfg { u with jobsClosed := true } := by
    refine hinv.closeJobs (fun hopened => ?_) hemptied.contents hemptied.accepted
    rcases hs with hs | hs
    · exact absurd (hs.symm.trans hopened) nofun
    · rw [hopened] at hs
      exact absurd hs (by decide)
  have hseals' : Seals cfg i { u with jobsClosed := true } :=
    ⟨⟨hclose, hemptied.lock, hemptied.room, nofun, hemptied.accepted⟩, ⟨hclose, hemptied.sole.lock, hemptied.sole.idle⟩⟩
  refine ⟨fun j hj => Kept.closeJobs hemptied.lock hj hclose, wp_op hclose fun v hv hinv' a v' hact => ?_⟩
  have hseals'' := hseals'.kept hv
  have hclosed : v.jobsClosed = true := congrArg Hand.jobsClosed (hv.writeMu hseals'.tidy.lock).2
  have hs' := sealing_kept hseals'.sole hs hv
  cases hact
  have hfinish : (∀ j, j ≠ i → Kept cfg j v v.finishSeal) ∧ Seals cfg i v.finishSeal ∧
      (v.finishSeal.state = .sealed ∨ Bad v.finishSeal.state) := by
    unfold World.finishSeal
    split
    · rename_i hsealing
      have hgood : ¬Bad v.state := by rw [hsealing]; decide
      have hstep := hseals''.setState .sealed hgood (by rw [hsealing]; nofun) (by decide) (by decide) (fun _ => hclosed)
        (fun _ => nofun) fun _ => rfl
      exact ⟨hstep.1, hstep.2, .inl rfl⟩
    · rename_i hsealing
      exact ⟨fun j _ => Kept.refl cfg j v, hseals'', .inr (hs'.resolve_left hsealing)⟩
  obtain ⟨hothers, hseals₃, hstate⟩ := hfinish
  refine ⟨hothers, ?_⟩
  dsimp only
  split
  · rename_i hfailed
    refine wp_pure hseals₃.inv fun x hx _ => ⟨hseals₃.kept hx, fun _ => ?_⟩
    rw [hfailed]
    nofun
  · split
    · exact wp_pure hseals₃.inv fun x hx _ => ⟨hseals₃.kept hx, nofun⟩
    · rename_i hfailed hstopped
      refine wp_pure hseals₃.inv fun x hx _ => ⟨hseals₃.kept hx, fun _ => ?_⟩
      rcases hstate with hstate | hfailed' | hstopped'
      · rw [hstate]
        nofun
      · exact absurd hfailed' hfailed
      · exact absurd hstopped' hstopped

theorem sealJobs_wp (h : Seals cfg i w) (hs : w.jobsClosed = true ∨ w.state = .sealing) :
    Wp cfg i (fun r v => Seals cfg i v ∧ (r.err = none → r.state ≠ .completed)) (sealJobs ctx) w := by
  refine wp_read rfl h.inv fun u closed hu hinv hact => ?_
  have hseals := h.kept hu
  have hanswer : closed = u.jobsClosed := by
    cases hact
    rfl
  split
  · exact wp_pure hinv fun v hv _ => ⟨hseals.kept hv, fun _ => nofun⟩
  · rename_i hopen
    have hopen : u.jobsClosed = false := by
      rw [← hanswer]
      exact Bool.eq_false_iff.2 hopen
    have hs : u.state = .sealing ∨ Bad u.state := by
      refine sealing_kept h.sole (.inl (hs.resolve_left fun hc => ?_)) hu
      exact absurd (hopen.symm.trans ((congrArg Hand.jobsClosed (hu.writeMu h.tidy.lock).2).trans hc)) nofun
    -- once the part is out of hand the stream can be sealed
    refine Env.wp_bind.2 (enqueueActiveLocked_wp hinv hseals.tidy.lock hopen (hseals.tidy.full hopen)
      (fun v hv hinv' hnone => ?_) (fun v b x hv hinv' hactive hbytes hsent hx => ?_) fun err v hv hinv' => ?_)
    · have hseals' := hseals.kept hv
      refine finishSeal_wp ⟨hseals'.sole, hseals'.tidy.lock, hseals'.tidy.room, hseals'.tidy.accepted,
        sealing_kept hseals.sole hs hv, fun _ => ?_⟩
      rcases hnone with hnone | hzero
      · exact World.activeContents_none hnone
      · exact World.activeContents_zero hzero
    · have hseals' := hseals.kept hv
      have hstate := sealing_kept hseals.sole hs hv
      have hemptied : Emptied cfg i (v.enqueueActive b) :=
        ⟨⟨hsent, hseals'.sole.lock, hseals'.sole.idle⟩, hseals'.tidy.lock, cfg.partSize_pos, hseals'.tidy.accepted,
          hstate, fun _ => World.activeContents_none rfl⟩
      exact finishSeal_wp (hemptied.kept hx)
    · have hopen' : v.jobsClosed = false := (congrArg Hand.jobsClosed (hv.writeMu hseals.tidy.lock).2).trans hopen
      refine Env.wp_mono (fun r x hx => ⟨hx.1, fun hnone => absurd hnone hx.2⟩)
        (unsealJobs_wp (hseals.kept hv) (sealing_kept hseals.sole hs hv) hopen')

/-- What `beginSealLocked` returns: an upload that was completed when it began says so, and only such a one. -/
structure SealedAs (cfg : Settings) (i : Tid) (began : World) (r : Sealed) (v : World) : Prop where
  seals : Seals cfg i v
  completed : r.err = none → r.state = .completed → v.state = .completed ∧ v.completed = r.attrs
  again : began.state = .completed → r = ⟨.completed, began.completed, none⟩

theorem beginSealLocked_wp (h : Seals cfg i w) : Wp cfg i (SealedAs cfg i w) (beginSealLocked ctx) w := by
  refine wp_op h.inv fun u hu hinv a u' hact => ?_
  have hseals := h.kept hu
  cases hact
  -- a state other than `completed` was not `completed` when the call began
  have hother : ∀ {r : Sealed}, u.state ≠ .completed → w.state = .completed → r = ⟨.completed, w.completed, none⟩ :=
    fun hne hs => absurd (hu.final hs).1 hne
  have hstop : ∀ {s : UploadState} {attrs : ObjectAttrs} {err : Err}, u.state ≠ .completed →
      Wp cfg i (SealedAs cfg i w) (pure ⟨s, attrs, some err⟩) u :=
    fun hne => wp_pure hinv fun v hv _ => ⟨hseals.kept hv, nofun, hother hne⟩
  have hgo : ∀ v, u.state ≠ .completed → Seals cfg i v → (v.jobsClosed = true ∨ v.state = .sealing) →
      Wp cfg i (SealedAs cfg i w) (sealJobs ctx) v :=
    fun v hne hv hs => Env.wp_mono
      (fun r x hx => ⟨hx.1, fun herr hcompleted => absurd hcompleted (hx.2 herr), hother hne⟩) (sealJobs_wp hv hs)
  have hrefl : ∀ j, j ≠ i → Kept cfg j u u := fun j _ => Kept.refl cfg j u
  cases hs : u.state with
  | completed =>
    rw [show u.beginSeal = (.stop .completed u.completed none, u) by simp only [World.beginSeal, hs]]
    refine ⟨hrefl, wp_pure hinv fun v hv _ => ⟨hseals.kept hv, fun _ _ => hv.final hs, fun hcompleted => ?_⟩⟩
    rw [(hu.final hcompleted).2]
  | opened =>
    by_cases hoffset : u.offset = 0
    · rw [show u.beginSeal = (.stop .opened ObjectAttrs.zero (some errEmptyUpload), u) by
        simp only [World.beginSeal, hs, if_pos hoffset]]
      exact ⟨hrefl, hstop (by rw [hs]; nofun)⟩
    · rw [show u.beginSeal = (.go, { u with state := .sealing }) by simp only [World.beginSeal, hs, if_neg hoffset]]
      have hgood : ¬Bad u.state := by rw [hs]; decide
      obtain ⟨hothers, hseals'⟩ := hseals.setState .sealing hgood (by rw [hs]; nofun) (by decide) (by decide) nofun
        (fun _ => nofun) fun hamb => by
          rcases hinv.unsure hamb with hx | hx | hx | hx
          · exact absurd (hs.symm.trans hx) nofun
          · exact absurd (hs.symm.trans hx) nofun
          · exact absurd (hs.symm.trans hx) nofun
          · exact absurd hx.bad hgood
      exact ⟨hothers, hgo _ (by rw [hs]; nofun) hseals' (.inr rfl)⟩
  | sealing =>
    rw [show u.beginSeal = (.go, u) by simp only [World.beginSeal, hs]]
    exact ⟨hrefl, hgo u (by rw [hs]; nofun) hseals (.inr hs)⟩
  | «sealed» =>
    rw [show u.beginSeal = (.go, u) by simp only [World.beginSeal, hs]]
    exact ⟨hrefl, hgo u (by rw [hs]; nofun) hseals (.inl (hinv.sealedJobs hs))⟩
  | failed =>
    rw [show u.beginSeal = (.failed u.firstErr, u) by simp only [World.beginSeal, hs]]
    have hne : u.state ≠ .completed := by rw [hs]; nofun
    refine ⟨hrefl, discard_seals hseals (.inl hs) fun v hv => wp_pure hv.inv fun x hx _ => ⟨hv.kept hx, ?_, hother hne⟩⟩
    exact fun _ => nofun
  | aborting =>
    rw [show u.beginSeal = (.stop .aborting ObjectAttrs.zero (some errAborted), u) by simp only [World.beginSeal, hs]]
    exact ⟨hrefl, hstop (by rw [hs]; nofun)⟩
  | aborted =>
    rw [show u.beginSeal = (.stop .aborted ObjectAttrs.zero (some errAborted), u) by simp only [World.beginSeal, hs]]
    exact ⟨hrefl, hstop (by rw [hs]; nofun)⟩
  | committing =>
    rw [show u.beginSeal = (.stop .committing ObjectAttrs.zero (some errCommitInProgress), u) by
      simp only [World.beginSeal, hs]]
    exact ⟨hrefl, hstop (by rw [hs]; nofun)⟩
  | indeterminate =>
    rw [show u.beginSeal = (.go, { u with state := .sealed }) by simp only [World.beginSeal, hs]]
    have hclosed := (hinv.settled (.inr (.inr hs))).2
    obtain ⟨hothers, hseals'⟩ := hseals.setState .sealed (by rw [hs]; decide) (by rw [hs]; nofun) (by decide) (by decide)
      (fun _ => hclosed) (fun _ => nofun) fun _ => rfl
    exact ⟨hothers, hgo _ (by rw [hs]; nofun) hseals' (.inl hclosed)⟩

/-! ## The call of the session -/

/-- Thread `i` has the receipts in hand and calls the session. -/
structure Calling (cfg : Settings) (i : Tid) (receipts : List Receipt) (w : World) : Prop where
  inv : Inv cfg w
  lock : w.commitMu = some i
  state : w.state = .committing
  ordered : w.orderedReceipts = .ok receipts

theorem Calling.kept {receipts : List Receipt} (h : Calling cfg i receipts w) (hkept : Kept cfg i w w') :
    Calling cfg i receipts w' := by
  obtain ⟨hdone, hclosed⟩ := h.inv.settled (.inl h.state)
  refine ⟨hkept.inv h.inv, (hkept.commitMu h.lock).1, ?_, ?_⟩
  · rcases hkept.drift h.lock with hs | ⟨-, hne, -⟩
    · exact hs.trans h.state
    · exact absurd h.state hne
  · have hreceipts := (hkept.done hdone).2
    obtain ⟨-, -, -, hnext⟩ := hkept.closed hclosed
    have heq : w'.orderedReceipts = w.orderedReceipts := by
      unfold World.orderedReceipts
      rw [hreceipts, hnext]
    exact heq.trans h.ordered

/-- What `Commit` makes of the answer of the session. -/
structure Answered (cfg : Settings) (i : Tid) (request : CommitRequest) (answer : Except Err ObjectAttrs) (w : World) :
    Prop where
  sole : Sole cfg i w
  state : w.state = .committing
  ended : .commitEnded request answer ∈ w.log
  unsure : ambiguous w.log = undecided answer

theorem Answered.kept {request : CommitRequest}
    (h : Answered cfg i request answer w) (hkept : Kept cfg i w w') : Answered cfg i request answer w' := by
  refine ⟨h.sole.kept hkept, ?_, hkept.log _ h.ended, (hkept.commitMu h.sole.lock).2.2.trans h.unsure⟩
  rcases hkept.drift h.sole.lock with hs | ⟨-, hne, -⟩
  · exact hs.trans h.state
  · exact absurd h.state hne

/-- `Commit` records the outcome. -/
theorem Answered.settle {request : CommitRequest} {result : Except Err ObjectAttrs}
    (h : Answered cfg i request answer w) (hok : ∀ attrs, result = .ok attrs → answer = .ok attrs)
    (herr : ∀ err, result = .error err → definite err = true → answer = .error err) :
    (∀ j, j ≠ i → Kept cfg j w (w.settle result)) ∧ Sole cfg i (w.settle result) ∧
      ∀ attrs, result = .ok attrs → (w.settle result).state = .completed ∧ (w.settle result).completed = attrs := by
  have hinv := h.sole.inv
  have hgood : ¬Bad w.state := by rw [h.state]; decide
  have hstopped : ¬Stopped w.state := by rw [h.state]; decide
  have hcompleted : w.state ≠ .completed := by rw [h.state]; nofun
  have hopened : w.state ≠ .opened := by rw [h.state]; nofun
  have hdone := hinv.settled (.inl h.state)
  have hidle : ∀ {p : Prop}, inCommit w.log = true → p := fun hin => absurd (h.sole.idle.symm.trans hin) nofun
  have hne : ∀ {j}, j ≠ i → w.commitMu ≠ some j := fun hj => h.sole.ne hj
  cases result with
  | ok attrs =>
    have hanswer := hok attrs rfl
    have hsure : ambiguous w.log = false := by rw [h.unsure, hanswer, undecided]
    have hinv' : Inv cfg { w with completed := attrs, state := .completed } :=
      hinv.setState .completed attrs hgood (by decide) (fun _ => hdone) (by simp) (fun _ => by simp)
        (fun hin => hidle hin) (fun hamb => absurd (hsure.symm.trans hamb) Bool.false_ne_true) fun _ => ⟨request, hanswer ▸ h.ended⟩
    refine ⟨fun j hj => Kept.setState attrs hinv' hgood hcompleted (hne hj) fun _ => hopened,
      ⟨hinv', h.sole.lock, h.sole.idle⟩, fun attrs' heq => ?_⟩
    cases heq
    exact ⟨rfl, rfl⟩
  | error err =>
    by_cases hdefinite : definite err = true
    · rw [show w.settle (.error err) = { w with firstErr := some err, state := .failed } by
        simp only [World.settle, if_pos hdefinite]]
      have hsure : ambiguous w.log = false := by
        rw [h.unsure, herr err rfl hdefinite, undecided, hdefinite]
        rfl
      have hinv' := hinv.fail err hstopped h.sole.idle hsure
      exact ⟨fun j hj => Kept.fail hinv' hstopped hcompleted fun hmu => absurd hmu (hne hj),
        ⟨hinv', h.sole.lock, h.sole.idle⟩, by simp⟩
    · rw [show w.settle (.error err) = { w with state := .indeterminate } by simp only [World.settle, if_neg hdefinite]]
      have hinv' : Inv cfg { w with state := .indeterminate } :=
        hinv.setState .indeterminate w.completed hgood (by decide) (fun _ => hdone) (by simp)
          (fun _ => by simp) (fun hin => hidle hin) (fun _ => .inr (.inr rfl)) (by simp)
      exact ⟨fun j hj => Kept.setState w.completed hinv' hgood hcompleted (hne hj) fun _ => hopened,
        ⟨hinv', h.sole.lock, h.sole.idle⟩, by simp⟩

omit [Hashes] in
theorem checkAttrs_ok {offset : UInt64} {attrs : ObjectAttrs}
    (h : checkAttrs offset answer = .ok attrs) : answer = .ok attrs := by
  simp only [checkAttrs, checks_ok] at h
  obtain ⟨attrs', hanswer, -, -, rfl⟩ := h
  exact hanswer

omit [Hashes] in
/-- A broken contract is no definite failure. -/
theorem checkAttrs_definite {offset : UInt64} {err : Err}
    (h : checkAttrs offset answer = .error err) (hdefinite : definite err = true) : answer = .error err := by
  cases answer with
  | error err' => exact h
  | ok attrs =>
    have hcontract : ∀ text, definite (contract text) ≠ true := fun text hd => by
      simp [definite, definiteCommitFailure, contract, Err.is, Err.of] at hd
    change (failIf _ _ >>= fun _ => failIf _ _ >>= fun _ => (pure attrs : Except Err ObjectAttrs)) = .error err at h
    unfold failIf at h
    split at h
    · cases h
      exact absurd hdefinite (hcontract _)
    · change ((if _ then _ else _ : Except Err Unit) >>= fun _ => (pure attrs : Except Err ObjectAttrs)) = .error err at h
      split at h
      · cases h
        exact absurd hdefinite (hcontract _)
      · cases h

omit [Hashes] in
theorem settleReply_ok {result : Except Err ObjectAttrs} {attrs : ObjectAttrs} (h : settleReply result = .ok attrs) :
    result = .ok attrs := by
  cases result with
  | ok attrs' => exact h
  | error err =>
    simp only [settleReply] at h
    split at h
    · cases h
    · cases h

/-- The call of the session and what follows. -/
theorem commitParts_wp {receipts : List Receipt} (h : Calling cfg i receipts w) (hidle : inCommit w.log = false) :
    Wp cfg i (fun r v => Sole cfg i v ∧ ∀ attrs, r = .ok attrs → v.state = .completed ∧ v.completed = attrs)
      (commitParts receipts) w := by
  refine wp_op h.inv fun u hu hinv a u' hact => ?_
  have hcalling := h.kept hu
  have hsole := Sole.kept ⟨h.inv, h.lock, hidle⟩ hu
  obtain ⟨hdone, hclosed⟩ := hinv.settled (.inl hcalling.state)
  have hgood : ¬Bad u.state := by rw [hcalling.state]; decide
  have hclaimant : u.claimant = none := by
    by_contra hne
    exact absurd (hcalling.state.symm.trans (hinv.claims.1 hne)) nofun
  cases hact
  generalize hrequest : (⟨receipts, u.offset, Hashes.sha256 u.hashed⟩ : CommitRequest) = request
  have hok : RequestOk cfg u.parts u.log request := hrequest ▸ hinv.request hgood hclosed hcalling.ordered
  have hwritten : written (u.log ++ [.commitBegan request]) = written u.log := by rw [written_append, List.append_nil]
  have hbegan : Inv cfg { u with log := u.log ++ [.commitBegan request] } := by
    refine hinv.record (.commitBegan request) ⟨hsole.idle, hinv.idleCleanup hclaimant, fun hmem => ?_⟩
      (fun _ => ⟨by rw [hsole.lock]; nofun, hcalling.state⟩) (fun hin => ?_) nofun (fun request' heq => ?_) nofun
      (fun hbad hor => ?_) (fun _ => hwritten) nofun fun hamb => ?_
    · exact hgood (hinv.cleaned hmem).bad
    · rw [inCleanup_append] at hin
      exact .inl hin
    · cases heq
      exact ⟨hdone, hclosed, ⟨receipts, hcalling.ordered⟩, hok⟩
    · rw [hwritten]
      exact hinv.accepted hbad hor
    · rw [ambiguous_append] at hamb
      exact .inl hamb
  refine ⟨fun j hj => Kept.record hbegan (fun _ => hwritten) (fun hmu => absurd hmu (hsole.ne hj))
    (fun _ => inCleanup_append _ _) fun _ => ambiguous_append _ _, ?_⟩
  have hcalling' : Calling cfg i receipts { u with log := u.log ++ [.commitBegan request] } :=
    ⟨hbegan, hcalling.lock, hcalling.state, hcalling.ordered⟩
  refine wp_op hbegan fun v hv hinv' answer v' hact => ?_
  have hcalling'' := hcalling'.kept hv
  have hmem : .commitBegan request ∈ v.log := hv.log _ (List.mem_append_right _ (List.mem_singleton_self _))
  cases hact
  have hwritten' : written (v.log ++ [.commitEnded request answer]) = written v.log := by
    rw [written_append, List.append_nil]
  have hended : Inv cfg { v with log := v.log ++ [.commitEnded request answer] } := by
    refine hinv'.record (.commitEnded request answer) trivial (fun hin => ?_) (fun hin => ?_) nofun nofun nofun
      (fun hbad hor => ?_) (fun _ => hwritten') (fun request' result heq => ?_) fun _ => .inr hcalling''.state
    · rw [inCommit_append] at hin
      cases hin
    · rw [inCleanup_append] at hin
      exact .inl hin
    · rw [hwritten']
      exact hinv'.accepted hbad hor
    · cases heq
      exact hmem
  refine ⟨fun j hj => Kept.record hended (fun _ => hwritten')
    (fun hmu => absurd (Option.mem_unique hmu hcalling''.lock) hj) (fun _ => inCleanup_append _ _)
    fun hstopped => ?_, ?_⟩
  · rw [hcalling''.state] at hstopped
    exact absurd hstopped (by decide)
  have hanswered : Answered cfg i request answer { v with log := v.log ++ [.commitEnded request answer] } :=
    ⟨⟨hended, hcalling''.lock, inCommit_append _ _⟩, hcalling''.state, List.mem_append_right _ (List.mem_singleton_self _),
      ambiguous_append _ _⟩
  refine wp_read rfl hended fun x offset hx hinv'' _ => ?_
  have hanswered' := hanswered.kept hx
  refine wp_op hinv'' fun y hy hinv₃ a y' hact => ?_
  have hanswered'' := hanswered'.kept hy
  cases hact
  obtain ⟨hothers, hsole', hcompleted⟩ := hanswered''.settle (fun attrs hr => checkAttrs_ok hr)
    fun err hr hdefinite => checkAttrs_definite hr hdefinite
  refine ⟨hothers, cancel_wp hsole'.inv fun z hz hinv₄ => wp_pure hinv₄ fun z' hz' _ => ?_⟩
  refine ⟨hsole'.kept (hz.trans hz'), fun attrs hreply => ?_⟩
  obtain ⟨hstate, hattrs⟩ := hcompleted attrs (settleReply_ok hreply)
  obtain ⟨hstate', hattrs'⟩ := (hz.trans hz').final hstate
  exact ⟨hstate', hattrs'.trans hattrs⟩

/-- The section of `Commit` once the parts are in: the caller gives up, or has the receipts in hand. -/
theorem Sole.startCommit (h : Sole cfg i w) (ctx : Nat) (hdone : w.done = true) :
    (∀ j, j ≠ i → Kept cfg j w (w.startCommit ctx).2) ∧ Sole cfg i (w.startCommit ctx).2 ∧
      ∀ receipts, (w.startCommit ctx).1 = .ok receipts → Calling cfg i receipts (w.startCommit ctx).2 := by
  have hinv := h.inv
  have hsame : ∀ {r : Except Err (List Receipt)}, (∀ receipts, r ≠ .ok receipts) → w.startCommit ctx = (r, w) →
      (∀ j, j ≠ i → Kept cfg j w (w.startCommit ctx).2) ∧ Sole cfg i (w.startCommit ctx).2 ∧
      ∀ receipts, (w.startCommit ctx).1 = .ok receipts → Calling cfg i receipts (w.startCommit ctx).2 := by
    intro r hr heq
    rw [heq]
    exact ⟨fun j _ => Kept.refl cfg j w, h, fun receipts hok => absurd hok (hr receipts)⟩
  by_cases hstopped : Stopped w.state
  · exact hsame (r := .error errAborted) nofun (if_pos hstopped)
  have hrunning : ¬(w.state = .aborting ∨ w.state = .aborted) := hstopped
  cases hfirst : w.firstErr with
  | some err =>
    -- only a failed upload has an error and is not stopped
    have hfailed : w.state = .failed := by
      by_contra hne
      have hgood : ¬Bad w.state := fun hbad => hbad.elim hne hstopped
      exact absurd (hfirst.symm.trans (hinv.goodErr hgood)) nofun
    refine hsame (r := .error err) nofun ?_
    rw [World.startCommit, if_neg hrunning]
    split
    · rename_i err' hfirst'
      obtain rfl := Option.mem_unique hfirst hfirst'
      rw [← hfailed]
    · rename_i hnone
      exact absurd (hfirst.symm.trans hnone) nofun
  | none =>
    by_cases hsealed : w.state = .sealed
    · have hclosed := hinv.sealedJobs hsealed
      have hgood : ¬Bad w.state := by rw [hsealed]; decide
      have hcompleted : w.state ≠ .completed := by rw [hsealed]; nofun
      have hopened : w.state ≠ .opened := by rw [hsealed]; nofun
      cases hctx : w.ctxs ctx with
      | some err =>
        exact hsame (r := .error err) nofun (by simp only [World.startCommit, if_neg hrunning, hfirst, hctx])
      | none =>
        cases hordered : w.orderedReceipts with
        | error err =>
          -- a commit that was called before had its receipts in order
          have hsure : ambiguous w.log = false := by
            rw [Bool.eq_false_iff]
            intro hamb
            obtain ⟨request, result, hmem⟩ := exists_of_ambiguous hamb
            obtain ⟨receipts, hok⟩ := hinv.retry ⟨request, hinv.ended request result hmem⟩
            exact absurd (hordered.symm.trans hok) nofun
          have hinv' := hinv.fail err hstopped h.idle hsure
          have heq : w.startCommit ctx = (.error err, { w with firstErr := some err, state := .failed }) := by
            simp only [World.startCommit, if_neg hrunning, hfirst, hctx, hordered, if_neg (not_not.2 hsealed)]
          rw [heq]
          exact ⟨fun j hj => Kept.fail hinv' hstopped hcompleted fun hmu => absurd hmu (h.ne hj),
            ⟨hinv', h.lock, h.idle⟩, nofun⟩
        | ok receipts =>
          have hinv' : Inv cfg { w with state := .committing } :=
            hinv.setState .committing w.completed hgood (by decide) (fun _ => ⟨hdone, hclosed⟩) nofun (fun _ => nofun)
              (fun _ => rfl) (fun _ => .inr (.inl rfl)) nofun
          have heq : w.startCommit ctx = (.ok receipts, { w with state := .committing }) := by
            simp only [World.startCommit, if_neg hrunning, hfirst, hctx, hordered, if_neg (not_not.2 hsealed)]
          rw [heq]
          refine ⟨fun j hj => Kept.setState w.completed hinv' hgood hcompleted (h.ne hj) fun _ => hopened,
            ⟨hinv', h.lock, h.idle⟩, fun receipts' hok => ?_⟩
          cases hok
          exact ⟨hinv', h.lock, rfl, hordered⟩
    · cases hctx : w.ctxs ctx with
      | some err =>
        exact hsame (r := .error err) nofun (by simp only [World.startCommit, if_neg hrunning, hfirst, hctx])
      | none =>
        refine hsame (r := .error (.of (.stream .closed) s!"cannot commit state {w.state.number}")) nofun ?_
        simp only [World.startCommit, if_neg hrunning, hfirst, hctx]
        exact if_pos hsealed

theorem commitSealed_wp (h : Sole cfg i w) :
    Wp cfg i (fun r v => Sole cfg i v ∧ ∀ attrs, r = .ok attrs → v.state = .completed ∧ v.completed = attrs)
      (commitSealed ctx) w := by
  refine wp_read rfl h.inv fun u err hu hinv hact => ?_
  have hsole := h.kept hu
  cases hact with
  | waitDoneCtx hctx =>
    exact wp_read rfl hinv fun v partErr hv hinv' _ => wp_pure hinv' fun x hx _ => ⟨hsole.kept (hv.trans hx), nofun⟩
  | waitDone hdone =>
    refine wp_op hinv fun v hv hinv' a v' hact => ?_
    cases hact
    obtain ⟨hothers, hsole', hcalling⟩ := (hsole.kept hv).startCommit ctx (hv.done hdone).1
    refine ⟨hothers, ?_⟩
    cases hstart : (v.startCommit ctx).1 with
    | error err => exact wp_pure hsole'.inv fun x hx _ => ⟨hsole'.kept hx, nofun⟩
    | ok receipts => exact commitParts_wp (hcalling receipts hstart) hsole'.idle

theorem commit_wp (h : Inv cfg w) :
    Wp cfg i (fun r v => Inv cfg v ∧ (∀ attrs, r = .ok attrs → v.state = .completed ∧ v.completed = attrs) ∧
      (w.state = .completed → r = .ok w.completed)) (commit ctx) w := by
  refine wp_op h fun u hu hinv a u' hact => ?_
  cases hact with
  | lockCommit hfree =>
    refine ⟨fun j _ => Kept.lockCommit hinv hfree, ?_⟩
    have hsole : Sole cfg i { u with commitMu := some i } := ⟨hinv.lockCommit, rfl, hinv.idleCommit hfree⟩
    -- what holds of the reply before the lock is given up
    refine Env.wp_bind.2 (Env.wp_mono (Q := fun r v => Sole cfg i v ∧
      (∀ attrs, r = .ok attrs → v.state = .completed ∧ v.completed = attrs) ∧
      (u.state = .completed → r = .ok u.completed)) (fun r v hv => ?_) ?_)
    · obtain ⟨hsole', hok, hagain⟩ := hv
      refine wp_op hsole'.inv fun x hx hinv' a x' hact => ?_
      have hsole'' := hsole'.kept hx
      cases hact
      have hinv'' := hinv'.unlockCommit hsole''.idle
      refine ⟨fun j hj => Kept.unlockCommit hsole''.lock hj hinv'', wp_pure hinv'' fun y hy hinv₃ => ⟨hinv₃, ?_, ?_⟩⟩
      · intro attrs hr
        obtain ⟨hstate, hattrs⟩ := hok attrs hr
        obtain ⟨hstate', hattrs'⟩ := hx.final hstate
        obtain ⟨hstate'', hattrs''⟩ := hy.final hstate'
        exact ⟨hstate'', hattrs''.trans (hattrs'.trans hattrs)⟩
      · intro hstate
        obtain ⟨hstate', hattrs⟩ := hu.final hstate
        rw [hagain hstate', hattrs]
    · refine lockWrite_wp hsole.inv fun v hv hfree' htidy => ?_
      have hsole' := hsole.kept hv
      have hseals : Seals cfg i { v with writeMu := some i } := ⟨htidy, htidy.inv, hsole'.lock, hsole'.idle⟩
      refine wp_seq (beginSealLocked_wp hseals) fun r x hr => ?_
      refine unlockWrite_wp hr.seals.tidy fun y hy htidy' hinv' => ?_
      have hsole'' : Sole cfg i { y with writeMu := none } :=
        ⟨hinv', (hr.seals.sole.kept hy).lock, (hr.seals.sole.kept hy).idle⟩
      have hbegan : u.state = .completed → r = ⟨.completed, u.completed, none⟩ := fun hstate => by
        obtain ⟨hstate', hattrs⟩ := hv.final hstate
        rw [hr.again hstate', hattrs]
      cases herr : r.err with
      | some err =>
        refine wp_pure hinv' fun z hz _ => ⟨hsole''.kept hz, nofun, fun hstate => ?_⟩
        rw [hbegan hstate] at herr
        cases herr
      | none =>
        dsimp only
        split
        · rename_i hcompleted
          obtain ⟨hstate, hattrs⟩ := hr.completed herr hcompleted
          obtain ⟨hstate', hattrs'⟩ := hy.final hstate
          refine wp_pure hinv' fun z hz _ => ⟨hsole''.kept hz, fun attrs hok => ?_, fun hstate => ?_⟩
          · cases hok
            obtain ⟨hstate'', hattrs''⟩ := hz.final hstate'
            exact ⟨hstate'', hattrs''.trans (hattrs'.trans hattrs)⟩
          · rw [hbegan hstate]
        · rename_i hcompleted
          refine Env.wp_mono (fun r' z hz => ⟨hz.1, hz.2, fun hstate => ?_⟩) (commitSealed_wp hsole'')
          rw [hbegan hstate] at hcompleted
          exact absurd rfl hcompleted

end ObjLog.Stream
