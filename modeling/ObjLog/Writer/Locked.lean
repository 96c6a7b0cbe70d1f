import ObjLog.Writer.Interference
/-!
# The functions that hold the lock

What the functions called with `w.mu` held do to the pipeline: waiting,
starting a segment, and the transition of the active segment that `cutLocked`
and `detachActiveLocked` share.
-/

namespace ObjLog.Writer

open Lib Monitor Catformat Pmeta

/-- What holds of a result, the state and the lock. -/
abbrev Post (α : Type) := α → State → World Goroutine State → Prop

variable {Q : Post (Option Err)} {e : Err} {p : Pipeline}

variable {g : Goroutine} {s s₀ s₁ : State} {w : World Goroutine State} {c : Config} {ctx : Ctx}

theorem held_same (h : monitor.Held g w s) (hsame : s₁.toPipeline = s.toPipeline) : monitor.Held g w s₁ :=
  h.move (.inr hsame)

theorem held_move (h : monitor.Held g w s) (hmove : Move g s.toPipeline s₁.toPipeline) : monitor.Held g w s₁ :=
  h.move (.inl hmove)

/-! ## Waiting -/

theorem wp_waitLocked {ready : State → Bool} (h : monitor.Held g w s)
    (hQ : ∀ r s₁ w₁, monitor.Held g w₁ s₁ → monitor.Others g s s₁ → (ready s = true → r = none ∧ s₁ = s) →
      ((r = none ∧ ready s₁ = true) ∨ ∃ e, r = some e ∧ Ends ctx s₁ e) → Q r s₁ w₁) :
    monitor.wp g Q (waitLocked ready ctx) s w := by
  unfold waitLocked
  rw [wp_bind, wp_get h]
  split
  · rename_i hready
    rw [wp_pure h]
    exact hQ none s w h .refl (fun _ => ⟨rfl, rfl⟩) (.inl ⟨rfl, hready⟩)
  · rename_i hready
    refine wp_await h fun r s₁ hothers h₁ hwoken => ?_
    refine hQ r s₁ _ h₁ hothers (fun hyes => absurd hyes hready) ?_
    cases hwoken with
    | ready hr => exact .inl ⟨rfl, hr⟩
    | quit hc he =>
      cases hc
      exact .inr ⟨_, rfl, he⟩

theorem abortedErr_eq_none : s.abortedErr = none ↔ s.aborted = false := by
  unfold State.abortedErr
  cases haborted : s.aborted with
  | false => simp
  | true =>
    cases s.firstErr with
    | none => simp
    | some err => by_cases hs : s.firstErrSurface <;> simp [hs]

theorem wp_waitActiveTransitionLocked (h : monitor.Held g w s)
    (herr : ∀ e s₁ w₁, monitor.Held g w₁ s₁ → monitor.Others g s s₁ →
      (s.activeTransition = none → s.closed = true ∨ s.aborted = true) → Q (some e) s₁ w₁)
    (hok : ∀ s₁ w₁, monitor.Held g w₁ s₁ → monitor.Others g s s₁ → (s.activeTransition = none → s₁ = s) →
      s₁.activeTransition = none → s₁.closed = false → s₁.aborted = false → Q none s₁ w₁) :
    monitor.wp g Q (Config.waitActiveTransitionLocked ctx) s w := by
  unfold Config.waitActiveTransitionLocked
  rw [wp_bind]
  refine wp_waitLocked h fun r s₁ w₁ h₁ hothers hstay hr => ?_
  rcases hr with ⟨rfl, hready⟩ | ⟨e, rfl, _⟩
  · simp only [wp_bind, wp_get h₁]
    have hsame : s.activeTransition = none → s₁ = s := fun hnone => (hstay (by simp [hnone])).2
    split
    · rename_i hclosed
      rw [wp_pure h₁]
      exact herr _ s₁ w₁ h₁ hothers fun hnone => .inl (hsame hnone ▸ hclosed)
    · rename_i hclosed
      rw [wp_pure h₁]
      cases habort : s₁.abortedErr with
      | some e =>
        refine herr e s₁ w₁ h₁ hothers fun hnone => .inr ?_
        by_contra hno
        simp [hsame hnone, abortedErr_eq_none.2 (Bool.not_eq_true _ ▸ hno)] at habort
      | none =>
        exact hok s₁ w₁ h₁ hothers hsame (by simpa using hready) (by simpa using hclosed) (abortedErr_eq_none.1 habort)
  · rw [wp_pure h₁]
    refine herr e s₁ w₁ h₁ hothers fun hnone => ?_
    have := (hstay (by simp [hnone])).1
    cases this

/-- The error of a reservation that no state allows. -/
def OverLimit (e : Err) : Prop := e.sentinels = [.writer .invalidOptions, .writer .reservationExceedsLimit]

theorem overLimit_some {segments : Nat} {bytes : UInt64} (h : c.overLimit segments bytes = some e) : OverLimit e := by
  unfold Config.overLimit at h
  split at h
  · cases h
    rfl
  · split at h
    · cases h
      rfl
    · cases h

/-- The state after a reservation. -/
def reserved (segments : Nat) (bytes : UInt64) (s : State) : State :=
  { s with
    inflightSegments := s.inflightSegments + segments
    inflightBytes := s.inflightBytes + bytes }

theorem wp_reserveInflightLocked {segments : Nat} {bytes : UInt64} (h : monitor.Held g w s)
    (hover : ∀ e, OverLimit e → Q (some e) s w)
    (herr : ∀ e s₁ w₁, monitor.Held g w₁ s₁ → monitor.Others g s s₁ → (Ends ctx s₁ e ∨ s₁.aborted = true) →
      Q (some e) s₁ w₁) (hok : ∀ s₁ w₁, monitor.Held g w₁ s₁ → monitor.Others g s s₁ → s₁.aborted = false →
      Q none (reserved segments bytes s₁) w₁) : monitor.wp g Q (c.reserveInflightLocked ctx segments bytes) s w := by
  unfold Config.reserveInflightLocked
  split
  · rename_i e hlimit
    rw [wp_pure h]
    exact hover e (overLimit_some hlimit)
  · rw [wp_bind]
    refine wp_waitLocked h fun r s₁ w₁ h₁ hothers _ hr => ?_
    rcases hr with ⟨rfl, _⟩ | ⟨e, rfl, he⟩
    · simp only [wp_bind, wp_get h₁]
      split
      · rename_i e habort
        rw [wp_pure h₁]
        refine herr e s₁ w₁ h₁ hothers (.inr ?_)
        by_contra hno
        simp [abortedErr_eq_none.2 (Bool.not_eq_true _ ▸ hno)] at habort
      · rename_i habort
        simp only [wp_bind, wp_modify h₁, wp_pure h₁]
        exact hok s₁ w₁ h₁ hothers (abortedErr_eq_none.1 habort)
    · rw [wp_pure h₁]
      exact herr e s₁ w₁ h₁ hothers (.inl he)

/-! ## Starting a segment -/

theorem wrapSegmentStart_is (e : Err) : (wrapSegmentStart e).is (.writer .segmentStartFailed) = true := by
  unfold wrapSegmentStart
  split
  · assumption
  · simp [Err.under, Err.is]

theorem newSegwriter_fresh {random : Except Err (Arr 16)} {now : Time} {uuid : Arr 16} {created : Int64} {sink : Bool}
    {sw : Segwriter.Writer} (h : c.newSegwriter random now uuid created sink = .ok sw) : Fresh sw := by
  obtain ⟨hnum, hrecords, hno, hclosed⟩ := Segwriter.new_numbered h
  refine ⟨hnum, hrecords, hno, ?_, hclosed⟩
  have := hnum.count
  rw [hrecords] at this
  exact UInt32.toNat_inj.1 this

/-- The state with the new segment `fresh` in place of the active one. -/
def renewed (fresh : Option ActiveSegment) (s : State) : State :=
  { s with active := fresh, started := s.started + fresh.toList.length }

/-- `renew` puts a new segment, or none, in place of the active one, or fails and changes nothing. -/
def Renews (g : Goroutine) (renew : P (Option Err)) : Prop :=
  ∀ {s s₀ : State} {w : World Goroutine State} {Q : Option Err → State → World Goroutine State → Prop},
    monitor.Held g w s₀ → (∀ e, e.is (.writer .segmentStartFailed) = true → Q (some e) s w) →
    (∀ fresh, (∀ a, fresh = some a → ∃ sw, Fresh sw ∧ a = newSegment s.optimisticNextLSN sw) →
      Q none (renewed fresh s) w) → monitor.wp g Q renew s w

theorem wp_startSegmentLocked (h : monitor.Held g w s₀)
    (herr : ∀ e, e.is (.writer .segmentStartFailed) = true → Q (some e) s w)
    (hok : ∀ sw, Fresh sw → Q none (renewed (some (newSegment s.optimisticNextLSN sw)) s) w) :
    monitor.wp g Q c.startSegmentLocked s w := by
  unfold Config.startSegmentLocked
  rw [wp_bind]
  refine wp_ask h fun uuid _ => ?_
  cases uuid with
  | error e =>
    rw [wp_pure h]
    exact herr _ (wrapSegmentStart_is e)
  | ok uuid =>
    rw [wp_bind]
    refine wp_ask h fun now _ => ?_
    rw [wp_bind, wp_get h, wp_bind]
    refine wp_ask h fun sink _ => ?_
    cases sink with
    | error e =>
      rw [wp_pure h]
      exact herr _ (wrapSegmentStart_is e)
    | ok sink =>
      rw [wp_bind]
      refine wp_ask h fun random _ => ?_
      rw [wp_bind]
      refine wp_ask h fun now' _ => ?_
      split
      · rename_i e _
        rw [wp_pure h]
        exact herr _ (wrapSegmentStart_is e)
      · rename_i sw hsw
        rw [wp_bind, wp_modify h, wp_pure h]
        exact hok sw (newSegwriter_fresh hsw)

theorem renews_startSegmentLocked (g : Goroutine) : Renews g c.startSegmentLocked := by
  intro s s₀ w Q h herr hok
  refine wp_startSegmentLocked h herr fun sw hsw => hok _ ?_
  rintro _ ⟨⟩
  exact ⟨sw, hsw, rfl⟩

theorem renews_none (g : Goroutine) : Renews g (do modify fun s => { s with active := none }; return none) := by
  intro s s₀ w Q h _ hok
  rw [wp_bind, wp_modify h, wp_pure h]
  exact hok none fun a ha => by cases ha

/-! ## The end of the writer -/

theorem startDrain_pipeline (s : State) (active : Option ActiveSegment) (detached : List DetachedSegment) :
    (s.startDrain active detached).toPipeline = s.toPipeline := by
  unfold State.startDrain
  split <;> rfl

theorem terminate_pipeline (s : State) (g : Goroutine) : (s.terminate g).toPipeline = s.toPipeline.terminate g :=
  startDrain_pipeline ..

theorem failWithSurface_pipeline (s : State) (g : Goroutine) (e : Err) (surfaced : Bool) :
    (s.failWithSurface g e surfaced).toPipeline = s.toPipeline.terminate g :=
  terminate_pipeline ..

theorem held_fail (h : monitor.Held g w s) (e : Err) (surfaced : Bool) :
    monitor.Held g w (s.failWithSurface g e surfaced) :=
  held_move h (failWithSurface_pipeline s g e surfaced ▸ .terminate)

theorem surfaceReturnedErr_pipeline (s : State) (e : Err) : (s.surfaceReturnedErr e).toPipeline = s.toPipeline := by
  unfold State.surfaceReturnedErr
  split <;> rfl

theorem surfaceAbortedErr_pipeline (s : State) : s.surfaceAbortedErr.2.toPipeline = s.toPipeline := by
  unfold State.surfaceAbortedErr
  dsimp only
  split <;> rfl

theorem foregroundErr_pipeline (s : State) : s.foregroundErr.2.toPipeline = s.toPipeline := by
  unfold State.foregroundErr
  split
  · rfl
  · exact surfaceAbortedErr_pipeline s

theorem foregroundErr_eq_none : s.foregroundErr.1 = none ↔ s.closed = false ∧ s.aborted = false := by
  unfold State.foregroundErr
  cases s.closed with
  | true => simp
  | false => simp [State.surfaceAbortedErr, abortedErr_eq_none]

/-! ## The transition -/

/-- An error that is neither the caller's context, nor a failed start, nor an exceeded budget. -/
structure Fatal (e : Err) : Prop where
  context : ¬ContextErr e
  start : e.is (.writer .segmentStartFailed) = false
  budget : e.is (.writer .recordExceedsInflightBudget) = false

theorem OverLimit.fatal (h : OverLimit e) : Fatal e := by
  refine ⟨?_, ?_, ?_⟩
  · rintro (rfl | rfl) <;> cases h
  · rw [Err.is, h]
    decide
  · rw [Err.is, h]
    decide

theorem OverLimit.is (h : OverLimit e) : e.is (.writer .reservationExceedsLimit) = true := by
  rw [Err.is, h]
  decide

theorem ContextErr.not_over (h : ContextErr e) : e.is (.writer .reservationExceedsLimit) = false := by
  rcases h with rfl | rfl <;> decide

theorem Ends.not_over (h : Ends ctx s e) : e.is (.writer .reservationExceedsLimit) = false := by
  cases ctx with
  | caller => exact ContextErr.not_over h
  | worker =>
    obtain ⟨_, rfl⟩ := h
    decide

/-- The caller's goroutine has accepted nothing; it may have failed with the error it returns. -/
structure Turned (p p' : Pipeline) (r : Option Err) : Prop extends SameLog p p' where
  terminatedBy : p'.terminatedBy = some .foreground → p.terminatedBy = some .foreground ∨ ∃ e, r = some e ∧ Fatal e

/-- Where the records of an active segment are once a transition has ended. -/
def Placed (a : ActiveSegment) (p : Pipeline) : Prop :=
  (p.aborted = false ∧ a.piece ∈ p.pieces) ∨ (p.aborted = true ∧ a.writer ∈ p.abandoned)

/-- How a transition of goroutine `g` ends. -/
structure Rotated (g : Goroutine) (p p' : Pipeline) (r : Option Err) : Prop where
  turned : g = .foreground → Turned p p' r
  ok : r = none → p'.activeTransition = none ∧ p'.closed = false ∧ p'.aborted = false ∧
    ∀ a, p'.active = some a → a.records = 0
  placed : p.activeTransition = none → ∀ a, p.active = some a → a.records ≠ 0 → Placed a p'

theorem Kept.turned {p' : Pipeline} (h : Kept p p') (r : Option Err) : Turned p p' r :=
  ⟨h.toSameLog, fun hby => .inl (h.terminatedBy hby)⟩

theorem Turned.after {q q' : Pipeline} {r : Option Err} (h : Turned q q' r) (hk : Turned p q none) : Turned p q' r :=
  ⟨hk.toSameLog.trans h.toSameLog, fun hby =>
    (h.terminatedBy hby).imp_left fun hq => (hk.terminatedBy hq).resolve_right fun ⟨_, hnone, _⟩ => by cases hnone⟩

theorem Pipeline.transition_eq (h : p.activeTransition = none) : { p with activeTransition := none } = p := by
  rw [← h]

/-- A fatal error of the caller's goroutine. -/
theorem turned_terminate (h : p.aborted = true ∨ Fatal e) : Turned p (p.terminate .foreground) (some e) := by
  refine ⟨{ SameLog.refl p with aborted := fun _ => rfl }, fun hby => ?_⟩
  rcases h with haborted | hfatal
  · left
    simpa [Pipeline.terminate, haborted] using hby
  · exact .inr ⟨e, rfl, hfatal⟩

theorem Placed.terminate {a : ActiveSegment} (h : (p.aborted = false ∧ p.active = some a) ∨
    (p.aborted = true ∧ a.writer ∈ p.abandoned)) : Placed a (p.terminate g) := by
  refine .inr ⟨rfl, ?_⟩
  rcases h with ⟨haborted, hactive⟩ | ⟨haborted, hmem⟩
  · simp [Pipeline.terminate, haborted, hactive]
  · simpa [Pipeline.terminate, haborted] using hmem

theorem Stays.placed {a : ActiveSegment} (h : Stays g a p) : Placed a { p with activeTransition := none } := by
  rcases h.2 with ⟨haborted, hactive⟩ | habandoned
  · exact .inl ⟨haborted, by simp [Pipeline.pieces, hactive]⟩
  · exact .inr habandoned

/-- The transition of an active segment with records, from the moment it has begun. -/
theorem wp_rotateLocked {renew : P (Option Err)} {old : ActiveSegment}
    (hrenew : Renews g renew) (h : monitor.Held g w s)
    (hmine : s.activeTransition = some g) (hactive : s.active = some old) (hne : old.records ≠ 0)
    (hQ : ∀ r s₁ w₁, monitor.Held g w₁ { s₁ with activeTransition := none } →
      (g = .foreground → Turned s.toPipeline { s₁.toPipeline with activeTransition := none } r) →
      (r = none → s₁.closed = false ∧ s₁.aborted = false ∧ ∀ a, s₁.active = some a → a.records = 0) →
      Placed old { s₁.toPipeline with activeTransition := none } → Q r s₁ w₁) :
    monitor.wp g Q (c.rotateLocked g ctx renew) s w := by
  have hstays : Stays g old s.toPipeline := ⟨hmine, .inl ⟨h.inv.not_aborted hactive, hactive⟩⟩
  -- The transition ends and nothing else has happened to the pipeline since `s₁`.
  have hend : ∀ {s₁ s₂ : State} {w₁ : World Goroutine State} (r : Option Err), monitor.Held g w₁ s₁ →
      monitor.Others g s s₁ → s₂.toPipeline = s₁.toPipeline → r ≠ none → Q r s₂ w₁ := by
    intro s₁ s₂ w₁ r h₁ hothers hsame hr
    have hst := others_stays hothers h.inv hstays
    refine hQ r s₂ w₁ (held_move h₁ ?_) (fun hg => ?_) (fun hnone => absurd hnone hr) (hsame ▸ hst.placed)
    · have : ({ s₂ with activeTransition := none } : State).toPipeline =
          { s₁.toPipeline with activeTransition := none } := by rw [← hsame]
      rw [this]
      exact .finish hst.1
    · subst hg
      rw [hsame]
      have hk := others_kept hothers h.inv
      exact ⟨{ hk.toSameLog with }, fun hby => .inl (hk.terminatedBy hby)⟩
  -- The same after a failure.
  have hfail : ∀ {s₁ : State} {w₁ : World Goroutine State} (e : Err), monitor.Held g w₁ s₁ → monitor.Others g s s₁ →
      (s₁.aborted = true ∨ Fatal e) → Q (some e) (s₁.failWithSurface g e false) w₁ := by
    intro s₁ w₁ e h₁ hothers hwhy
    have hst := others_stays hothers h.inv hstays
    have hpipe := failWithSurface_pipeline s₁ g e false
    have hterm : monitor.Held g w₁ (s₁.failWithSurface g e false) := held_fail h₁ e false
    refine hQ _ _ w₁ (held_move hterm ?_) (fun hg => ?_) nofun ?_
    · refine .finish ?_
      rw [hpipe]
      exact hst.1
    · subst hg
      rw [hpipe]
      have ht := turned_terminate (e := e) hwhy
      exact { ht.after ((others_kept hothers h.inv).turned _) with }
    · rw [hpipe]
      exact (Placed.terminate hst.2 : Placed old (s₁.toPipeline.terminate g))
  unfold Config.rotateLocked
  rw [wp_bind, wp_get h]
  simp only [hactive, hne, if_false]
  rw [wp_bind]
  refine wp_reserveInflightLocked h (fun e he => ?_) (fun e s₁ w₁ h₁ hothers hwhy => ?_) (fun s₁ w₁ h₁ hothers hrun => ?_)
  · simp only [he.is, if_true, failAsyncLocked, wp_bind, wp_modify h, wp_pure h]
    exact hfail e h .refl (.inr he.fatal)
  · by_cases hover : e.is (.writer .reservationExceedsLimit) = true
    · simp only [hover, if_true, failAsyncLocked, wp_bind, wp_modify h₁, wp_pure h₁]
      refine hfail e h₁ hothers (.inl (hwhy.resolve_left fun hends => ?_))
      simp [hends.not_over] at hover
    · simp only [hover, if_false, wp_pure h₁, Bool.false_eq_true]
      exact hend (some e) h₁ hothers rfl nofun
  · have hst := others_stays hothers h.inv hstays
    have hsame : s₁.active = some old := by
      rcases hst.2 with ⟨_, hactive₁⟩ | ⟨haborted, _⟩
      · exact hactive₁
      · exact absurd hrun (by simp [haborted])
    have hclosed₁ : s₁.closed = false := by
      by_contra hyes
      have := (h₁.inv.drained (by simpa using hyes)).active
      simp [hsame] at this
    rw [wp_bind]
    refine hrenew h₁ (fun e he => ?_) (fun fresh hfresh => ?_)
    · simp only [Config.releaseInflightLocked, wp_bind, wp_modify h₁, wp_pure h₁]
      exact hend (some e) h₁ hothers rfl nofun
    · simp only [wp_bind, wp_modify h₁, wp_pure h₁]
      have hmove : Move g s₁.toPipeline ({ c.detach old (renewed fresh (reserved 1 (c.estimate old) s₁)) with
          activeTransition := none } : State).toPipeline :=
        .detach (d := ⟨s₁.nextCutSeq, old.baseLSN, old.records, old.rawBytes, c.estimate old, old.writer⟩)
          hst.1 hsame hne rfl rfl rfl hfresh
      refine hQ none _ w₁ (held_move h₁ hmove) (fun hg => ?_) (fun _ => ⟨hclosed₁, hrun, fun a ha => ?_⟩) ?_
      · subst hg
        have hk := others_kept hothers h.inv
        exact ⟨{ hk.toSameLog with }, fun hby => .inl (hk.terminatedBy hby)⟩
      · obtain ⟨sw, _, rfl⟩ := hfresh a ha
        rfl
      · exact .inl ⟨hrun, by simp [Pipeline.pieces, Pipeline.cutPieces, Config.detach, renewed, reserved,
          DetachedSegment.piece, ActiveSegment.piece]⟩

theorem wp_transitionLocked {renew : P (Option Err)} (hrenew : Renews g renew) (h : monitor.Held g w s)
    (hQ : ∀ r s₁ w₁, monitor.Held g w₁ s₁ → Rotated g s.toPipeline s₁.toPipeline r → Q r s₁ w₁) :
    monitor.wp g Q (c.transitionLocked g ctx renew) s w := by
  unfold Config.transitionLocked Config.beginActiveTransitionLocked
  simp only [wp_bind]
  have hkept : ∀ {s₁ : State}, monitor.Others g s s₁ → g = .foreground → Kept s.toPipeline s₁.toPipeline := by
    intro s₁ hothers hg
    subst hg
    exact others_kept hothers h.inv
  refine wp_waitActiveTransitionLocked h (fun e s₁ w₁ h₁ hothers hwhy => ?_)
    (fun s₁ w₁ h₁ hothers hstay hnone hclosed hrun => ?_)
  · simp only [wp_pure h₁]
    refine hQ (some e) s₁ w₁ h₁ ⟨fun hg => (hkept hothers hg).turned _, nofun, fun hnone a ha _ => ?_⟩
    -- An active segment is neither closed nor given up.
    rcases hwhy hnone with hclosed | haborted
    · simp [(h.inv.drained hclosed).active] at ha
    · simp [h.inv.idle haborted] at ha
  · simp only [wp_bind, wp_modify h₁, wp_pure h₁, Config.endActiveTransitionLocked]
    by_cases hwork : ∃ old, s₁.active = some old ∧ old.records ≠ 0
    · obtain ⟨old, hactive, hne⟩ := hwork
      have h₂ : monitor.Held g w₁ { s₁ with activeTransition := some g } :=
        held_move h₁ (.begin hnone hclosed hactive hne)
      refine wp_rotateLocked hrenew h₂ rfl hactive hne fun r s₃ w₃ h₃ hturned hok hplaced => ?_
      have hholder : monitor.Held g w₃ _ := h₃
      rw [wp_modify hholder, wp_pure hholder]
      refine hQ r _ w₃ h₃ ⟨fun hg => ?_, fun hr => ⟨rfl, hok hr⟩, fun hfree a ha hane => ?_⟩
      · have hk := hkept hothers hg
        exact Turned.after (hturned hg) { hk.turned none with }
      · have heq : some old = some a := by rw [← hactive, hstay hfree, ha]
        cases heq
        exact hplaced
    · have hempty : ∀ a, s₁.active = some a → a.records = 0 := fun a ha => by
        by_contra hne
        exact hwork ⟨a, ha, hne⟩
      have hrotate : monitor.wp g (fun r s w => r = none ∧ s = { s₁ with activeTransition := some g } ∧ w = w₁)
          (c.rotateLocked g ctx renew) { s₁ with activeTransition := some g } w₁ := by
        unfold Config.rotateLocked
        rw [wp_bind, wp_get h₁]
        split
        · rw [wp_pure h₁]
          exact ⟨rfl, rfl, rfl⟩
        · rename_i a ha
          rw [if_pos (hempty a ha), wp_pure h₁]
          exact ⟨rfl, rfl, rfl⟩
      refine wp_mono ?_ hrotate
      rintro _ _ _ ⟨rfl, rfl, rfl⟩
      rw [wp_modify h₁, wp_pure h₁]
      have hpipe : ({ s₁ with activeTransition := none } : State).toPipeline = s₁.toPipeline :=
        Pipeline.transition_eq hnone
      refine hQ none _ _ (held_same h₁ hpipe) ⟨fun hg => ?_, fun _ => ⟨rfl, hclosed, hrun, hempty⟩, fun hfree a ha hane => ?_⟩
      · exact { (hkept hothers hg).turned none with }
      · exact absurd (hempty a (hstay hfree ▸ ha)) hane

end ObjLog.Writer
