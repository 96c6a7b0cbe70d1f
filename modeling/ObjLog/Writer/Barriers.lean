import ObjLog.Writer.Appending
/-!
# `Cut`, `Flush`, `Close` and `Abort`

`Flush` and `Close` take the active segment away and wait until nothing is in
flight. The wait ends on one counter, `inflightSegments`; that it counts every
segment of the queues is part of the invariant.
-/

namespace ObjLog.Writer

open Lib Monitor Catformat Pmeta

variable {Q : Post (Option Err)} {empty : Option ActiveSegment}

variable {g : Goroutine} {s s₀ : State} {w : World Goroutine State} {c : Config} {p p' : Pipeline}

/-- Between two calls the caller discards no segment, unless the writer is terminal. -/
def Idle (p : Pipeline) : Prop := p.aborted = true ∨ p.discarding = none

theorem Idle.same (h : Idle p) (hlog : SameLog p p') : Idle p' :=
  h.imp hlog.aborted fun hnone => hlog.discarding.trans hnone

theorem Idle.pipeline {s' : State} (h : Idle s.toPipeline) (hsame : s'.toPipeline = s.toPipeline) : Idle s'.toPipeline := by
  rwa [hsame]

theorem Appends.idle {record : Record} {r : Except Err UInt64} (h : Appends record p p' r) (hidle : Idle p) : Idle p' := by
  cases r with
  | error e => exact hidle.same (Turned.toSameLog h)
  | ok lsn => exact hidle.imp h.aborted fun hnone => (Took.discarding h).trans hnone

/-! ## The parts of `Flush` and `Close` -/

theorem wp_noteTerminalErr {e : Err} {surfaced : Bool} {Q : Post Unit}
    (h : monitor.Rests g w s₀) (hQ : ∀ s₁ s' w', monitor.Others g s₀ s₁ → s'.toPipeline = s₁.toPipeline.terminate g →
      monitor.Rests g w' s' → Q () s' w') : monitor.wp g Q (noteTerminalErr g e surfaced) s w := by
  unfold noteTerminalErr
  rw [wp_bind]
  refine wp_lock h.away fun s₁ hothers h₁ => ?_
  rw [wp_bind, wp_modify h₁]
  have h₂ := held_fail h₁ e (surfaced && decide (s₁.firstErr.getD e = e))
  exact wp_release h₂ fun w' hrests => hQ s₁ _ w' hothers (failWithSurface_pipeline ..) hrests

/-- The active segment is gone; an empty one is about to be discarded. -/
structure Taken (p p' : Pipeline) (empty : Option ActiveSegment) : Prop where
  active : p'.active = none
  discarding : p'.discarding = empty
  optimisticNextLSN : p'.optimisticNextLSN = p.optimisticNextLSN
  accepted : p'.accepted = p.accepted
  closed : p'.closed = false

theorem wp_takeEmptyLocked {Q : Post (Option ActiveSegment)}
    (h : monitor.Held .foreground w s) (hfree : s.activeTransition = none) (hclosed : s.closed = false)
    (hidle : s.discarding = none) (hempty : ∀ a, s.active = some a → a.records = 0)
    (hQ : ∀ empty s', monitor.Held .foreground w s' → Taken s.toPipeline s'.toPipeline empty → Q empty s' w) :
    monitor.wp .foreground Q Config.takeEmptyLocked s w := by
  unfold Config.takeEmptyLocked
  rw [wp_bind, wp_get h]
  cases hactive : s.active with
  | none =>
    simp only [wp_pure h]
    exact hQ none s h ⟨hactive, hidle, rfl, rfl, hclosed⟩
  | some a =>
    have hzero := hempty a hactive
    simp only [hzero, if_true, wp_bind, wp_modify h, wp_pure h]
    exact hQ (some a) _ (held_move h (.take hfree hactive hzero hidle)) ⟨rfl, rfl, rfl, rfl, hclosed⟩

theorem wp_detachOrTakeLocked {Q : Post (Except Err (Option ActiveSegment))}
    (h : monitor.Held .foreground w s) (hclosed : s.closed = false) (hrun : s.aborted = false) (hidle : s.discarding = none)
    (herr : ∀ e s' w', monitor.Held .foreground w' s' → SameLog s.toPipeline s'.toPipeline → Q (.error e) s' w')
    (hok : ∀ empty s' w', monitor.Held .foreground w' s' → Taken s.toPipeline s'.toPipeline empty → Q (.ok empty) s' w') :
    monitor.wp .foreground Q c.detachOrTakeLocked s w := by
  unfold Config.detachOrTakeLocked
  rw [wp_bind, wp_get h]
  split
  · rw [wp_bind]
    refine wp_transitionLocked (renews_none _) h fun r s₁ w₁ h₁ hrot => ?_
    have hlog := (hrot.turned rfl).toSameLog
    cases r with
    | some e =>
      have hsame := surfaceReturnedErr_pipeline s₁ e
      simp only [wp_bind, wp_modify h₁, wp_pure h₁]
      exact herr e _ w₁ (held_same h₁ hsame) (hsame ▸ hlog)
    | none =>
      obtain ⟨hfree, hclosed₁, _, hempty⟩ := hrot.ok rfl
      simp only [wp_bind]
      refine wp_takeEmptyLocked h₁ hfree hclosed₁ (hlog.discarding.trans hidle) hempty fun empty s₂ h₂ htaken => ?_
      rw [wp_pure h₂]
      exact hok empty s₂ w₁ h₂ { htaken with
        optimisticNextLSN := htaken.optimisticNextLSN.trans hlog.optimisticNextLSN
        accepted := htaken.accepted.trans hlog.accepted }
  · rename_i hzero
    have hempty : ∀ a, s.active = some a → a.records = 0 := by
      intro a ha
      simpa [ha] using hzero
    -- A transition is only begun on a segment with records.
    have hfree : s.activeTransition = none := by
      by_contra hsome
      rcases h.inv.transition (Option.isSome_iff_ne_none.2 hsome) with haborted | ⟨a, ha, hne⟩
      · simp [hrun] at haborted
      · exact hne (hempty a ha)
    rw [wp_bind]
    refine wp_takeEmptyLocked h hfree hclosed hidle hempty fun empty s₂ h₂ htaken => ?_
    rw [wp_pure h₂]
    exact hok empty s₂ w h₂ htaken

/-- The segment writer of the empty segment, as its abort has left it. -/
def Aborted (empty : Option ActiveSegment) (sw : Option Segwriter.Writer) : Prop :=
  (empty = none ∧ sw = none) ∨ ∃ a sw', empty = some a ∧ sw = some sw' ∧ sw'.closed = false ∧ sw'.aborted = true

theorem wp_abortEmpty {Q : Post (Except Err (Option Segwriter.Writer))}
    (h : monitor.Rests .foreground w s) (hempty : ∀ a, empty = some a → a.writer.closed = false)
    (herr : ∀ e s' w', s'.aborted = true → monitor.Rests .foreground w' s' → Q (.error e) s' w')
    (hok : ∀ sw w', Aborted empty sw → monitor.Rests .foreground w' s → Q (.ok sw) s w') :
    monitor.wp .foreground Q (Config.abortEmpty empty) s w := by
  unfold Config.abortEmpty
  cases empty with
  | none => exact wp_return h fun w' hrests => hok none w' (.inl ⟨rfl, rfl⟩) hrests
  | some a =>
    have hopen := hempty a rfl
    simp only [wp_bind]
    refine wp_inquire h fun cleanup w₁ h₁ => ?_
    unfold Segwriter.Writer.abort
    simp only [hopen, Bool.false_eq_true, if_false]
    cases cleanup with
    | none =>
      exact wp_return h₁ fun w' hrests => hok _ w' (.inr ⟨a, _, rfl, rfl, rfl, rfl⟩) hrests
    | some e =>
      simp only [noteForegroundErr, wp_bind]
      refine wp_noteTerminalErr h₁ fun s₁ s' w' _ hpipe hrests => ?_
      have haborted : s'.aborted = true := congrArg Pipeline.aborted hpipe
      exact wp_return hrests fun w'' hrests' => herr _ s' w'' haborted hrests'

/-- Nothing is in flight any more, or the wait has failed. -/
theorem wp_waitDrainedLocked
    (h : monitor.Held .foreground w s) (hactive : s.active = none) (hdisc : s.discarding = none)
    (herr : ∀ e s' w', monitor.Held .foreground w' s' → SameLog s.toPipeline s'.toPipeline → Q (some e) s' w')
    (hok : ∀ s' w', monitor.Held .foreground w' s' → Kept s.toPipeline s'.toPipeline → s'.aborted = false →
      s'.inflightSegments = 0 → Drained s'.toPipeline → Q none s' w') :
    monitor.wp .foreground Q (Config.waitDrainedLocked .caller) s w := by
  unfold Config.waitDrainedLocked
  rw [wp_bind]
  refine wp_waitLocked h fun r s₁ w₁ h₁ hothers _ hr => ?_
  have hkept := others_kept hothers h.inv
  rcases hr with ⟨rfl, hready⟩ | ⟨e, rfl, _⟩
  · simp only [wp_bind, wp_get h₁, wp_pure h₁]
    cases habort : s₁.abortedErr with
    | some e => exact herr e s₁ w₁ h₁ hkept.toSameLog
    | none =>
      have hrun := abortedErr_eq_none.1 habort
      have hzero : s₁.inflightSegments = 0 := by simpa [hrun] using hready
      exact hok s₁ w₁ h₁ hkept hrun hzero
        ((h₁.inv.running hrun).drained (hkept.active hactive) (hkept.discarding.trans hdisc) hzero)
  · rw [wp_pure h₁]
    exact herr e s₁ w₁ h₁ hkept.toSameLog

theorem held_discarded {sw : Option Segwriter.Writer} (h : monitor.Held .foreground w s)
    (hdisc : s.discarding = empty) (hsw : Aborted empty sw) :
    monitor.Held .foreground w (Config.discarded sw s) ∧ (Config.discarded sw s).discarding = none := by
  rcases hsw with ⟨rfl, rfl⟩ | ⟨a, sw', rfl, rfl, hclosed, haborted⟩
  · exact ⟨h, hdisc⟩
  · exact ⟨held_move h (.discard hdisc hclosed haborted), rfl⟩

theorem wp_lockDrained {sw : Option Segwriter.Writer} (h : monitor.Rests .foreground w s)
    (hactive : s.active = none) (hdisc : s.discarding = empty) (hsw : Aborted empty sw)
    (herr : ∀ e s' w', monitor.Held .foreground w' s' → s'.discarding = none → Q (some e) s' w')
    (hok : ∀ s' w', monitor.Held .foreground w' s' → s'.aborted = false → s'.inflightSegments = 0 →
      Drained s'.toPipeline → Q none s' w') : monitor.wp .foreground Q (Config.lockDrained sw) s w := by
  unfold Config.lockDrained
  rw [wp_bind]
  refine wp_lock h.away fun s₁ hothers h₁ => ?_
  have hkept := others_kept hothers h.inv
  obtain ⟨h₂, hdisc₂⟩ := held_discarded h₁ (hkept.discarding.trans hdisc) hsw
  have hactive₂ : (Config.discarded sw s₁).active = none := by
    have := hkept.active hactive
    cases sw <;> exact this
  rw [wp_bind, wp_modify h₁]
  exact wp_waitDrainedLocked h₂ hactive₂ hdisc₂
    (fun e s' w' h' hlog => herr e s' w' h' (hlog.discarding.trans hdisc₂))
    (fun s' w' h' _ hrun hzero hdrained => hok s' w' h' hrun hzero hdrained)

/-! ## The calls -/

/-- The snapshot is that of a writer with everything published. -/
def Flushed (p : Pipeline) : Except Err Snapshot → Prop
  | .ok snapshot => Drained p ∧ snapshot.head.nextLSN = p.optimisticNextLSN
  | .error _ => True

/-- How a call with a snapshot for its result ends. -/
def Barrier (p : Pipeline) (r : Except Err Snapshot) : Prop := Idle p ∧ Flushed p r

theorem barrier_error (h : Idle p) (e : Err) : Barrier p (.error e) := ⟨h, trivial⟩

theorem Drained.idle (h : Drained p) : Idle p := .inr h.discarding

theorem wp_cut (h : monitor.Away .foreground w s₀) (hidle : Idle w.shared.toPipeline) :
    monitor.wp .foreground (Returns fun p _ => Idle p) c.cut s w := by
  unfold Config.cut
  rw [wp_bind]
  refine wp_lock h.from fun s₁ hothers₁ h₁ => ?_
  have hidle₁ := hidle.same (others_kept hothers₁ h.inv).toSameLog
  have hsame₁ := foregroundErr_pipeline s₁
  have h₂ := held_same h₁ hsame₁
  rw [wp_bind, wp_modifyGet h₁]
  split
  · exact wp_leave h₂ fun w' hrests => ⟨hidle₁.pipeline hsame₁, hrests⟩
  · rw [wp_bind]
    refine wp_transitionLocked (renews_startSegmentLocked _) h₂ fun r s₃ w₃ h₃ hrot => ?_
    have hidle₃ := (hidle₁.pipeline hsame₁).same (hrot.turned rfl).toSameLog
    have hsame₃ : (r.elim s₃ s₃.surfaceReturnedErr).toPipeline = s₃.toPipeline := by
      cases r with
      | none => rfl
      | some e => exact surfaceReturnedErr_pipeline s₃ e
    rw [wp_bind, wp_modify h₃]
    exact wp_leave (held_same h₃ hsame₃) fun w' hrests => ⟨hidle₃.pipeline hsame₃, hrests⟩

theorem wp_flush (h : monitor.Away .foreground w s₀) (hidle : Idle w.shared.toPipeline) :
    monitor.wp .foreground (Returns Barrier) c.flush s w := by
  unfold Config.flush
  rw [wp_bind]
  refine wp_lock h.from fun s₁ hothers₁ h₁ => ?_
  have hidle₁ := hidle.same (others_kept hothers₁ h.inv).toSameLog
  have hsame₁ := foregroundErr_pipeline s₁
  rw [wp_bind, wp_modifyGet h₁]
  cases hfg : s₁.foregroundErr.1 with
  | some e => exact wp_leave (held_same h₁ hsame₁) fun w' hrests => ⟨barrier_error (hidle₁.pipeline hsame₁) e, hrests⟩
  | none =>
    obtain ⟨hclosed, hrun⟩ := foregroundErr_eq_none.1 hfg
    have hdisc : s₁.discarding = none := hidle₁.resolve_left (by simp [hrun])
    rw [wp_bind]
    refine wp_detachOrTakeLocked (held_same h₁ hsame₁) ((congrArg Pipeline.closed hsame₁).trans hclosed)
      ((congrArg Pipeline.aborted hsame₁).trans hrun) ((congrArg Pipeline.discarding hsame₁).trans hdisc)
      (fun e s₃ w₃ h₃ hlog => ?_) (fun empty s₃ w₃ h₃ htaken => ?_)
    · exact wp_leave h₃ fun w' hrests => ⟨barrier_error ((hidle₁.pipeline hsame₁).same hlog) e, hrests⟩
    · simp only [wp_bind]
      refine wp_release h₃ fun w₄ h₄ => ?_
      refine wp_abortEmpty h₄ (fun a ha => h₃.inv.discarding a (htaken.discarding.trans ha)) (fun e s' w' haborted hrests => ?_)
        (fun sw w₅ hsw h₅ => ?_)
      · exact wp_return hrests fun w'' hrests' => ⟨barrier_error (.inl haborted) e, hrests'⟩
      · simp only [wp_bind]
        refine wp_lockDrained h₅ htaken.active htaken.discarding hsw (fun e s₆ w₆ h₆ hnone => ?_)
          (fun s₆ w₆ h₆ _ _ hdrained => ?_)
        · refine wp_returnErr h₆ fun s' w' hsame hrests => ⟨barrier_error (.inr ?_) e, hrests⟩
          rw [hsame]
          exact hnone
        · rw [wp_bind, wp_get h₆]
          exact wp_leave h₆ fun w' hrests => ⟨⟨hdrained.idle, hdrained, hdrained.next⟩, hrests⟩

/-! ## Close and Abort -/

theorem startDrain_held (active : Option ActiveSegment) (detached : List DetachedSegment) (h : monitor.Held g w s) :
    monitor.Held g w (s.startDrain active detached) :=
  held_same h (startDrain_pipeline ..)

theorem wp_waitDrain (h : monitor.Rests .foreground w s₀)
    (hQ : ∀ r s' w', monitor.Others .foreground s₀ s' → monitor.Rests .foreground w' s' → Q r s' w') :
    monitor.wp .foreground Q (Config.waitDrain .caller) s w := by
  unfold Config.waitDrain
  rw [wp_bind]
  refine wp_lockWhen h.away fun r s₁ hothers h₁ _ => ?_
  cases r with
  | some e => exact wp_leave h₁ fun w' hrests => hQ _ s₁ w' hothers hrests
  | none =>
    simp only [wp_bind, wp_get h₁]
    exact wp_release h₁ fun w' hrests => wp_return hrests fun w'' hrests' => hQ _ s₁ w'' hothers hrests'

theorem wp_returnDrained {snapshot : Snapshot} (h : monitor.Rests .foreground w s₀)
    (hdrained : Drained s₀.toPipeline) (hnext : snapshot.head.nextLSN = s₀.optimisticNextLSN) :
    monitor.wp .foreground (Returns Barrier) (Config.returnDrained snapshot) s w := by
  unfold Config.returnDrained
  rw [wp_bind]
  refine wp_waitDrain h fun r s' w' hothers hrests => ?_
  have hdrained' := others_drained hothers h.inv hdrained
  have hkept := others_kept hothers h.inv
  cases r with
  | some e => exact wp_return hrests fun w'' hrests' => ⟨barrier_error hdrained'.idle e, hrests'⟩
  | none =>
    exact wp_return hrests fun w'' hrests' =>
      ⟨⟨hdrained'.idle, hdrained', hnext.trans hkept.optimisticNextLSN.symm⟩, hrests'⟩

theorem wp_returnTerminal {terminal : Bool} {e : Err} (h : monitor.Rests .foreground w s) (hidle : Idle s.toPipeline) :
    monitor.wp .foreground (Returns Barrier) (Config.returnTerminal terminal e) s w := by
  unfold Config.returnTerminal
  split
  · rw [wp_bind]
    refine wp_waitDrain h fun r s' w' hothers hrests => ?_
    have hidle' := hidle.same (others_kept hothers h.inv).toSameLog
    cases r with
    | some late => exact wp_return hrests fun w'' hrests' => ⟨barrier_error hidle' _, hrests'⟩
    | none => exact wp_return hrests fun w'' hrests' => ⟨barrier_error hidle' _, hrests'⟩
  · exact wp_return h fun w' hrests => ⟨barrier_error hidle e, hrests⟩

theorem wp_closeLocked (h : monitor.Held .foreground w s) (hclosed : s.closed = false) (hrun : s.aborted = false)
    (hidle : s.discarding = none) : monitor.wp .foreground (Returns Barrier) c.closeLocked s w := by
  unfold Config.closeLocked
  rw [wp_bind]
  refine wp_detachOrTakeLocked h hclosed hrun hidle (fun e s₃ w₃ h₃ hlog => ?_) (fun empty s₃ w₃ h₃ htaken => ?_)
  · simp only [wp_bind, wp_get h₃]
    refine wp_release h₃ fun w₄ h₄ => ?_
    exact wp_returnTerminal h₄ (.inr (hlog.discarding.trans hidle))
  · simp only [wp_bind]
    refine wp_release h₃ fun w₄ h₄ => ?_
    refine wp_abortEmpty h₄ (fun a ha => h₃.inv.discarding a (htaken.discarding.trans ha)) (fun e s' w' haborted hrests => ?_)
      (fun sw w₅ hsw h₅ => ?_)
    · exact wp_returnTerminal hrests (.inl haborted)
    · simp only [wp_bind]
      refine wp_lockDrained h₅ htaken.active htaken.discarding hsw (fun e s₆ w₆ h₆ hnone => ?_)
        (fun s₆ w₆ h₆ hrun₆ hzero hdrained => ?_)
      · have hsame := surfaceReturnedErr_pipeline s₆ e
        have h₇ := held_same h₆ hsame
        simp only [wp_bind, wp_modify h₆, wp_get h₆]
        refine wp_release h₇ fun w₈ h₈ => ?_
        refine wp_returnTerminal h₈ (.inr ?_)
        rw [hsame]
        exact hnone
      · have h₇ : monitor.Held .foreground w₆ { s₆ with closed := true } :=
          held_move h₆ (.close hrun₆ hdrained.active hdrained.discarding hzero)
        simp only [wp_bind, wp_modify h₆, wp_get h₆]
        have h₈ := startDrain_held none [] h₇
        refine wp_release h₈ fun w₉ h₉ => ?_
        have hsame := startDrain_pipeline { s₆ with closed := true } none []
        refine wp_returnDrained h₉ ?_ ?_
        · rw [hsame]
          exact { hdrained with }
        · exact hdrained.next.trans (congrArg Pipeline.optimisticNextLSN hsame).symm

theorem wp_close (h : monitor.Away .foreground w s₀) (hidle : Idle w.shared.toPipeline) :
    monitor.wp .foreground (Returns Barrier) c.close s w := by
  unfold Config.close
  rw [wp_bind]
  refine wp_lock h.from fun s₁ hothers₁ h₁ => ?_
  have hidle₁ := hidle.same (others_kept hothers₁ h.inv).toSameLog
  rw [wp_bind, wp_get h₁]
  split
  · rename_i hclosed
    have hsame := startDrain_pipeline s₁ none []
    have h₂ := startDrain_held none [] h₁
    simp only [wp_bind, wp_modify h₁]
    refine wp_release h₂ fun w₃ h₃ => ?_
    have hdrained := h₁.inv.drained hclosed
    refine wp_returnDrained h₃ (hsame ▸ hdrained) ?_
    exact hdrained.next.trans (congrArg Pipeline.optimisticNextLSN hsame).symm
  · rename_i hclosed
    have hsame₁ := surfaceAbortedErr_pipeline s₁
    have h₂ := held_same h₁ hsame₁
    rw [wp_bind, wp_modifyGet h₁]
    cases habort : s₁.surfaceAbortedErr.1 with
    | some e =>
      have h₃ := startDrain_held none [] h₂
      simp only [wp_bind, wp_modify h₂]
      refine wp_release h₃ fun w₃ hrests => ?_
      exact wp_returnTerminal hrests ((hidle₁.pipeline hsame₁).pipeline (startDrain_pipeline ..))
    | none =>
      have hrun : s₁.aborted = false := abortedErr_eq_none.1 habort
      exact wp_closeLocked h₂ ((congrArg Pipeline.closed hsame₁).trans (by simpa using hclosed))
        ((congrArg Pipeline.aborted hsame₁).trans hrun)
        ((congrArg Pipeline.discarding hsame₁).trans (hidle₁.resolve_left (by simp [hrun])))

theorem unsurfacedErr_pipeline (s : State) : (Config.unsurfacedErr s).2.toPipeline = s.toPipeline := by
  unfold Config.unsurfacedErr
  split
  · rfl
  · dsimp only
    split <;> rfl

theorem wp_abort (h : monitor.Away .foreground w s₀) :
    monitor.wp .foreground (Returns fun p _ => Idle p) Config.abort s w := by
  -- The drain is waited for in a state that stays idle.
  have hwait : ∀ {s₁ : State} {w₁ : World Goroutine State}, monitor.Held .foreground w₁ s₁ → Idle s₁.toPipeline →
      ∀ {f : Option Err → Option Err}, monitor.wp .foreground (Returns fun p _ => Idle p)
        (unlock >>= fun _ => Config.waitDrain .caller >>= fun r => pure (f r)) s₁ w₁ := by
    intro s₁ w₁ h₁ hidle f
    rw [wp_bind]
    refine wp_release h₁ fun w₂ h₂ => ?_
    rw [wp_bind]
    refine wp_waitDrain h₂ fun r s' w' hothers hrests => ?_
    exact wp_return hrests fun w'' hrests' => ⟨hidle.same (others_kept hothers h₁.inv).toSameLog, hrests'⟩
  unfold Config.abort
  rw [wp_bind]
  refine wp_lock h.from fun s₁ hothers₁ h₁ => ?_
  rw [wp_bind, wp_get h₁]
  split
  · rename_i hclosed
    rw [wp_bind, wp_modify h₁]
    have hidle : Idle (s₁.startDrain none []).toPipeline := by
      rw [startDrain_pipeline]
      exact (h₁.inv.drained hclosed).idle
    simpa using hwait (startDrain_held _ _ h₁) hidle (f := id)
  · split
    · rename_i _ haborted
      have hsame := unsurfacedErr_pipeline s₁
      have h₂ := held_same h₁ hsame
      rw [wp_bind, wp_modifyGet h₁, wp_bind, wp_modify h₂]
      refine hwait (startDrain_held _ _ h₂) (.inl ?_)
      rw [startDrain_pipeline, hsame]
      exact haborted
    · let s₂ : State := { s₁ with firstErr := some (.bare (.writer .aborted)), firstErrSurface := true }
      have hpipe : (s₂.terminate .foreground).toPipeline = s₁.toPipeline.terminate .foreground := terminate_pipeline ..
      have hmove : Move .foreground s₁.toPipeline (s₂.terminate .foreground).toPipeline := hpipe ▸ .terminate
      rw [wp_bind, wp_modify h₁]
      simpa using hwait (held_move h₁ hmove) (.inl (congrArg Pipeline.aborted hpipe)) (f := id)

end ObjLog.Writer
