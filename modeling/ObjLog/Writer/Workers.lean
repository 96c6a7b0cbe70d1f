import ObjLog.Writer.Barriers
/-!
# Retention, the workers and the drain

Each turn of a worker, from the moment it waits for work. What only the
goroutine itself changes is as it left it when it comes back: the session and
the committed head while it holds `sessionMu`, the segment being finalized, the
segment being published.
-/

namespace ObjLog.Writer

open Lib Monitor Catformat Pmeta

variable {Q : Post Unit}

variable {g : Goroutine} {s s₀ : State} {w : World Goroutine State} {c : Config}

/-- The state is changed once under the lock. -/
theorem wp_update {f : State → State} (h : monitor.Rests g w s)
    (hmove : ∀ s₁, monitor.Others g s s₁ → Inv s₁.toPipeline →
      Move g s₁.toPipeline (f s₁).toPipeline ∨ (f s₁).toPipeline = s₁.toPipeline)
    (hQ : ∀ s₁ w', monitor.Others g s s₁ → monitor.Rests g w' (f s₁) → Q () (f s₁) w') :
    monitor.wp g Q (lock >>= fun _ => modify f >>= fun _ => unlock) s w := by
  rw [wp_bind]
  refine wp_lock h.away fun s₁ hothers h₁ => ?_
  have h₂ : monitor.Held g ⟨some g, s₁⟩ (f s₁) := h₁.move (hmove s₁ hothers h₁.inv)
  rw [wp_bind, wp_modify h₁]
  exact wp_release h₂ fun w' hrests => hQ s₁ w' hothers hrests

/-- The state is read once under the lock. -/
theorem wp_read {α : Type} {f : State → α} {Q : Post α} (h : monitor.Rests g w s)
    (hQ : ∀ s₁ w', monitor.Others g s s₁ → monitor.Rests g w' s₁ → Q (f s₁) s₁ w') :
    monitor.wp g Q (lock >>= fun _ => get >>= fun s => unlock >>= fun _ => pure (f s)) s w := by
  rw [wp_bind]
  refine wp_lock h.away fun s₁ hothers h₁ => ?_
  rw [wp_bind, wp_get h₁]
  exact wp_leave h₁ fun w' hrests => hQ s₁ w' hothers hrests

/-- A goroutine's program ends outside the monitor; nothing else is asked of it. -/
def Ended (g : Goroutine) {α : Type} (_ : α) (s : State) (w : World Goroutine State) : Prop := monitor.Rests g w s

section
variable (h : monitor.Rests g w s)
include h

theorem wp_note {e : Err} {surfaced : Bool}
    (hQ : ∀ s' w', monitor.Rests g w' s' → Q () s' w') : monitor.wp g Q (noteTerminalErr g e surfaced) s w :=
  wp_noteTerminalErr h fun _ s' w' _ _ hrests => hQ s' w' hrests

theorem wp_workerDone {Q : Post Bool}
    (hQ : ∀ r s₁ w', monitor.Others g s s₁ → monitor.Rests g w' s₁ → Q r s₁ w') : monitor.wp g Q Config.workerDone s w :=
  wp_read h fun s₁ w' hothers hrests => hQ _ s₁ w' hothers hrests

theorem wp_pause {Q : Post Bool}
    (hQ : ∀ r s₁ w', monitor.Others g s s₁ → monitor.Rests g w' s₁ → Q r s₁ w') : monitor.wp g Q Config.pause s w := by
  unfold Config.pause
  rw [wp_bind]
  refine wp_lockWhen h.away fun r s₁ hothers h₁ _ => ?_
  exact wp_leave h₁ fun w' hrests => hQ _ s₁ w' hothers hrests

/-! ## The session -/

theorem wp_lockSession (hQ : ∀ s₁ w', monitor.Others g s s₁ → monitor.Rests g w' { s₁ with sessionMu := some g } →
      Q () { s₁ with sessionMu := some g } w') : monitor.wp g Q (Config.lockSession g) s w := by
  unfold Config.lockSession
  rw [wp_bind]
  refine wp_lockWhen h.away fun r s₁ hothers h₁ hwoken => ?_
  have hfree : s₁.sessionMu = none := by
    cases hwoken with
    | ready hready => simpa using hready
    | quit hctx => cases hctx
  have h₂ : monitor.Held g ⟨some g, s₁⟩ { s₁ with sessionMu := some g } := held_move h₁ (.lockSession hfree)
  rw [wp_bind, wp_modify h₁]
  exact wp_release h₂ fun w' hrests => hQ s₁ w' hothers hrests

theorem wp_unlockSession (hmu : s.sessionMu = some g)
    (hQ : ∀ s₁ w', monitor.Others g s s₁ → monitor.Rests g w' { s₁ with sessionMu := none } →
      Q () { s₁ with sessionMu := none } w') : monitor.wp g Q Config.unlockSession s w :=
  wp_update h (fun _ hothers _ => .inl (.unlockSession (others_session hothers h.inv hmu).1)) hQ

theorem wp_acceptRetention {current : Snapshot} {result : RetentionResult}
    {Q : Post (Option Err)} (hmu : s.sessionMu = some g)
    (hcurrent : s.committed = current) (herr : ∀ e w', monitor.Rests g w' s → Q (some e) s w')
    (hok : ∀ s₁ w', monitor.Others g s s₁ → monitor.Rests g w' { s₁ with committed := result.snapshot } →
      Q none { s₁ with committed := result.snapshot } w') :
    monitor.wp g Q (Config.acceptRetention current result) s w := by
  unfold Config.acceptRetention
  split
  · exact wp_return h fun w' hrests => herr _ w' hrests
  · rename_i hvalid
    have hnext := validateRetentionSnapshot_ok hvalid
    rw [wp_bind]
    refine wp_lock h.away fun s₁ hothers h₁ => ?_
    obtain ⟨hmu₁, hcommitted⟩ := others_session hothers h.inv hmu
    have h₂ : monitor.Held g ⟨some g, s₁⟩ { s₁ with committed := result.snapshot } :=
      held_move h₁ (.retained hmu₁ (by rw [hcommitted, hcurrent, hnext]))
    rw [wp_bind, wp_modify h₁]
    exact wp_leave h₂ fun w' hrests => hok s₁ w' hothers hrests

theorem wp_applyRetentionSession (hmu : s.sessionMu = some g) :
    monitor.wp g (Ended g) (Config.applyRetentionSession g) s w := by
  unfold Config.applyRetentionSession
  rw [wp_bind]
  refine wp_lock h.away fun s₁ hothers h₁ => ?_
  have hsame := foregroundErr_pipeline s₁
  have h₂ := held_same h₁ hsame
  have hmu₁ : s₁.foregroundErr.2.sessionMu = some g :=
    (congrArg Pipeline.sessionMu hsame).trans (others_session hothers h.inv hmu).1
  rw [wp_bind, wp_modifyGet h₁]
  split
  · simp only [wp_bind]
    refine wp_release h₂ fun w₃ hrests => ?_
    refine wp_unlockSession hrests hmu₁ fun s₄ w₄ _ h₄ => ?_
    exact wp_return h₄ fun w' hrests => hrests
  · simp only [wp_bind, wp_get h₂]
    refine wp_release h₂ fun w₃ hrests => ?_
    refine wp_inquire hrests fun answer w₄ h₄ => ?_
    cases answer with
    | error e =>
      simp only [wp_bind]
      refine wp_unlockSession h₄ hmu₁ fun s₅ w₅ _ h₅ => ?_
      split
      · rw [wp_bind]
        exact wp_note h₅ fun s₆ w₆ h₆ => wp_return h₆ fun w' hrests => hrests
      · exact wp_return h₅ fun w' hrests => hrests
    | ok result =>
      simp only [wp_bind]
      refine wp_acceptRetention h₄ hmu₁ rfl (fun e w₅ h₅ => ?_) (fun s₅ w₅ hothers₅ h₅ => ?_)
      · simp only [wp_bind]
        refine wp_unlockSession h₅ hmu₁ fun s₆ w₆ _ h₆ => ?_
        exact wp_note h₆ fun s₇ w₇ h₇ => wp_return h₇ fun w' hrests => hrests
      · rw [wp_bind]
        refine wp_unlockSession h₅ (others_session hothers₅ h₄.inv hmu₁).1 fun s₆ w₆ _ h₆ => ?_
        exact wp_return h₆ fun w' hrests => hrests

theorem wp_applyPendingRetention : monitor.wp g (Ended g) (c.applyPendingRetention g) s w := by
  unfold Config.applyPendingRetention
  split
  · rw [wp_bind]
    exact wp_lockSession h fun s₁ w' _ hrests => wp_applyRetentionSession hrests rfl
  · exact wp_return h fun w' hrests => hrests

/-! ## The finalize loop -/

/-- A worker has work, or has to stop; either way it holds the lock. -/
theorem wp_awaitWork {α : Type} {work : State → Option α} {Q : Post (Option α)}
    (hstop : ∀ s₁ w', monitor.Others g s s₁ → monitor.Held g w' s₁ → Q none s₁ w')
    (hwork : ∀ a s₁ w', monitor.Others g s s₁ → monitor.Held g w' s₁ → work s₁ = some a → Q (some a) s₁ w') :
    monitor.wp g Q (Config.awaitWork work) s w := by
  unfold Config.awaitWork
  rw [wp_bind]
  refine wp_lockWhen h.away fun r s₁ hothers h₁ _ => ?_
  cases r with
  | some e =>
    simp only [wp_pure h₁]
    exact hstop s₁ _ hothers h₁
  | none =>
    simp only [wp_bind, wp_get h₁, wp_pure h₁]
    cases hw : work s₁ with
    | none => exact hstop s₁ _ hothers h₁
    | some a => exact hwork a s₁ _ hothers h₁ hw

end

/-- A turn of the finalize loop ends; another may follow. -/
def Finalized (goes : Bool) (s : State) (w : World Goroutine State) : Prop :=
  monitor.Rests .finalize w s ∧ (goes = true → s.finalizing = none)

theorem wp_noteDrainWorkerErr {e : Err} (h : monitor.Rests g w s)
    (hQ : ∀ s' w', monitor.Rests g w' s' → Q () s' w') : monitor.wp g Q (Config.noteDrainWorkerErr e) s w := by
  unfold Config.noteDrainWorkerErr
  split
  · exact wp_return h fun w' hrests => hQ s w' hrests
  · exact wp_update h (fun _ _ _ => .inr rfl) fun _ w' _ hrests => hQ _ w' hrests

theorem wp_finalizeItem {item : DetachedSegment} (h : monitor.Rests .finalize w s) (hitem : s.finalizing = some item) :
    monitor.wp .finalize Finalized (c.finalizeItem item) s w := by
  have hfalse : ∀ {s' : State} {w' : World Goroutine State}, monitor.Rests .finalize w' s' → Finalized false s' w' :=
    fun hrests => ⟨hrests, nofun⟩
  unfold Config.finalizeItem
  rw [wp_bind]
  refine wp_inquire h fun turn w₁ h₁ => ?_
  split
  · rw [wp_bind]
    refine wp_workerDone h₁ fun done s₂ w₂ _ h₂ => ?_
    split
    · rw [wp_bind]
      exact wp_noteDrainWorkerErr h₂ fun s₃ w₃ h₃ => wp_return h₃ fun w' => hfalse
    · rw [wp_bind]
      exact wp_note h₂ fun s₃ w₃ h₃ => wp_return h₃ fun w' => hfalse
  · rename_i result sw hclose
    have hclosed := Segwriter.close_ok hclose
    dsimp only
    split
    · rw [wp_bind]
      exact wp_note h₁ fun s₃ w₃ h₃ => wp_return h₃ fun w' => hfalse
    · rw [wp_bind]
      refine wp_lock h₁.away fun s₂ hothers h₂ => ?_
      have hitem₂ : s₂.finalizing = some item := (others_finalizing hothers h₁.inv).trans hitem
      have hnext : (segmentRefFromResult result c.streamID c.identity).nextLSN = item.writer.nextLSN := by
        simp [SegmentRef.nextLSN, segmentRefFromResult, hclosed.lastLSN]
      have h₃ : monitor.Held .finalize ⟨some .finalize, s₂⟩ (Config.finalized item result.object.sizeBytes
          (segmentRefFromResult result c.streamID c.identity) sw s₂) :=
        held_move h₂ (.finalized hitem₂ (r := ⟨item.seq, item.baseLSN, item.estBytes, result.object.sizeBytes,
          segmentRefFromResult result c.streamID c.identity, sw.records⟩) rfl rfl hclosed.baseLSN hnext hclosed.records
          hclosed.closed hclosed.aborted)
      rw [wp_bind, wp_modify h₂]
      exact wp_leave h₃ fun w' hrests => ⟨hrests, fun _ => rfl⟩

theorem wp_finalizeTurn (h : monitor.Rests .finalize w s) (hnone : s.finalizing = none) :
    monitor.wp .finalize Finalized c.finalizeTurn s w := by
  unfold Config.finalizeTurn
  rw [wp_bind]
  refine wp_awaitWork h (fun s₁ w₁ _ h₁ => ?_) (fun item s₁ w₁ hothers h₁ hhead => ?_)
  · exact wp_leave h₁ fun w' hrests => ⟨hrests, nofun⟩
  · obtain ⟨rest, hrest⟩ := List.head?_eq_some_iff.1 hhead
    have h₂ : monitor.Held .finalize w₁ { s₁ with detached := s₁.detached.tail, finalizing := some item } :=
      held_move h₁ (.pop (by simp [hrest]) ((others_finalizing hothers h.inv).trans hnone))
    simp only [wp_bind, wp_modify h₁]
    exact wp_release h₂ fun w' hrests => wp_finalizeItem hrests rfl

/-! ## The publish loop -/

/-- A turn of the publish loop ends; another may follow. -/
def Published (goes : Bool) (s : State) (w : World Goroutine State) : Prop :=
  monitor.Rests .publish w s ∧ (goes = true → s.outstanding = none)

theorem publishedSegment_pipeline (item : ReadySegment) (next : Snapshot) (s : State) :
    (Config.publishedSegment item next s).toPipeline = s.toPipeline.publishedSegment item next := by
  unfold Config.publishedSegment Pipeline.publishedSegment
  dsimp only
  split <;> rfl

theorem wp_publishItem {item : ReadySegment} (h : monitor.Rests .publish w s) (hmu : s.sessionMu = some .publish)
    (hitem : s.publishing = some item) (hnone : s.outstanding = none) :
    monitor.wp .publish Published (Config.publishItem item) s w := by
  -- The session is given back, the failure noted.
  have hfail : ∀ {s₁ : State} {w₁ : World Goroutine State} (e : Err), monitor.Rests .publish w₁ s₁ → s₁.sessionMu = some .publish →
      monitor.wp .publish Published (do Config.unlockSession; noteAsyncErr .publish e; return false) s₁ w₁ := by
    intro s₁ w₁ e h₁ hmu₁
    simp only [wp_bind]
    refine wp_unlockSession h₁ hmu₁ fun s₂ w₂ _ h₂ => ?_
    exact wp_note h₂ fun s₃ w₃ h₃ => wp_return h₃ fun w' hrests => ⟨hrests, nofun⟩
  unfold Config.publishItem
  rw [wp_bind]
  refine wp_lock h.away fun s₁ hothers h₁ => ?_
  obtain ⟨hmu₁, hcommitted⟩ := others_session hothers h.inv hmu
  obtain ⟨hitem₁, hnone₁⟩ := others_publishing hothers h.inv
  have h₂ : monitor.Held .publish ⟨some .publish, s₁⟩ (Config.publishing item s₁) :=
    held_move h₁ (.call (hitem₁.trans hitem) (hnone₁.trans hnone))
  simp only [wp_bind, wp_get h₁, wp_modify h₁]
  refine wp_release h₂ fun w₃ hrests => ?_
  refine wp_inquire hrests fun answer w₄ h₄ => ?_
  cases answer with
  | error e => exact hfail _ h₄ hmu₁
  | ok next =>
    dsimp only
    split
    · exact hfail _ h₄ hmu₁
    · rename_i hvalid
      have hnext := (validatePublishedSnapshot_ok hvalid).2
      rw [wp_bind]
      refine wp_lock h₄.away fun s₅ hothers₅ h₅ => ?_
      obtain ⟨hmu₅, _⟩ := others_session hothers₅ h₄.inv hmu₁
      obtain ⟨hitem₅, hout₅⟩ := others_publishing hothers₅ h₄.inv
      have hpipe := publishedSegment_pipeline item next s₅
      have h₆ : monitor.Held .publish ⟨some .publish, s₅⟩ (Config.publishedSegment item next s₅) :=
        held_move h₅ (hpipe ▸ .published hmu₅ (hitem₅.trans (hitem₁.trans hitem)) hout₅ hnext)
      simp only [wp_bind, wp_modify h₅, wp_get h₆]
      refine wp_release h₆ fun w₇ hrests => ?_
      have h₇ := hrests
      refine wp_unlockSession h₇ ((congrArg Pipeline.sessionMu hpipe).trans hmu₅) fun s₈ w₈ hothers₈ h₈ => ?_
      refine wp_return h₈ fun w' hrests => ⟨hrests, fun _ => ?_⟩
      exact (others_publishing hothers₈ h₇.inv).2.trans (congrArg Pipeline.outstanding hpipe)

/-- Before a segment is published, a pending retention may be accepted. -/
theorem wp_reconcileRetention {Q : Post (Option Err)} (h : monitor.Rests .publish w s)
    (hmu : s.sessionMu = some .publish)
    (hQ : ∀ r s' w', monitor.Rests .publish w' s' → s'.sessionMu = some .publish → s'.publishing = s.publishing →
      s'.outstanding = s.outstanding → Q r s' w') : monitor.wp .publish Q c.reconcileRetention s w := by
  unfold Config.reconcileRetention
  split
  · rw [wp_bind]
    refine wp_read h fun s₁ w₁ hothers h₁ => ?_
    obtain ⟨hmu₁, _⟩ := others_session hothers h.inv hmu
    obtain ⟨hitem₁, hout₁⟩ := others_publishing hothers h.inv
    rw [wp_bind]
    refine wp_inquire h₁ fun answer w₂ h₂ => ?_
    cases answer with
    | error e => exact wp_return h₂ fun w' hrests => hQ _ s₁ w' hrests hmu₁ hitem₁ hout₁
    | ok answer =>
      obtain ⟨result, pending⟩ := answer
      dsimp only
      split
      · refine wp_acceptRetention h₂ hmu₁ rfl (fun e w' hrests => hQ _ s₁ w' hrests hmu₁ hitem₁ hout₁)
          (fun s₃ w₃ hothers₃ h₃ => ?_)
        obtain ⟨hitem₃, hout₃⟩ := others_publishing hothers₃ h₂.inv
        exact hQ _ _ w₃ h₃ (others_session hothers₃ h₂.inv hmu₁).1 (hitem₃.trans hitem₁) (hout₃.trans hout₁)
      · exact wp_return h₂ fun w' hrests => hQ _ s₁ w' hrests hmu₁ hitem₁ hout₁
  · exact wp_return h fun w' hrests => hQ _ s w' hrests hmu rfl rfl

theorem wp_publishTurn (h : monitor.Rests .publish w s) (hnone : s.outstanding = none) :
    monitor.wp .publish Published c.publishTurn s w := by
  unfold Config.publishTurn
  rw [wp_bind]
  refine wp_awaitWork h (fun s₁ w₁ _ h₁ => ?_) (fun item s₁ w₁ hothers h₁ hhead => ?_)
  · exact wp_leave h₁ fun w' hrests => ⟨hrests, nofun⟩
  · have hnone₁ : s₁.outstanding = none := (others_publishing hothers h.inv).2.trans hnone
    have h₂ : monitor.Held .publish w₁ { s₁ with publishing := some item } := held_move h₁ (.look hhead hnone₁)
    simp only [wp_bind, wp_modify h₁]
    refine wp_release h₂ fun w₃ hrests => ?_
    have h₃ : monitor.Rests .publish w₃ _ := hrests
    refine wp_lockSession h₃ fun s₄ w₄ hothers₄ h₄ => ?_
    obtain ⟨hitem₄, hout₄⟩ := others_publishing hothers₄ h₃.inv
    refine wp_reconcileRetention h₄ rfl fun r s₅ w₅ h₅ hmu₅ hitem₅ hout₅ => ?_
    have hnone₅ : s₅.outstanding = none := hout₅.trans (hout₄.trans hnone₁)
    cases r with
    | none => exact wp_publishItem h₅ hmu₅ (hitem₅.trans hitem₄) hnone₅
    | some e =>
      simp only [wp_bind]
      refine wp_unlockSession h₅ hmu₅ fun s₆ w₆ hothers₆ h₆ => ?_
      have hnone₆ : s₆.outstanding = none := (others_publishing hothers₆ h₅.inv).2.trans hnone₅
      refine wp_workerDone h₆ fun done s₇ w₇ hothers₇ h₇ => ?_
      have hnone₇ : s₇.outstanding = none := (others_publishing hothers₇ h₆.inv).2.trans hnone₆
      split
      · exact wp_return h₇ fun w' hrests => ⟨hrests, nofun⟩
      · split
        · refine wp_pause h₇ fun go s₈ w₈ hothers₈ h₈ => ⟨h₈, fun _ => ?_⟩
          exact (others_publishing hothers₈ h₇.inv).2.trans hnone₇
        · rw [wp_bind]
          exact wp_note h₇ fun s₈ w₈ h₈ => wp_return h₈ fun w' hrests => ⟨hrests, nofun⟩

/-! ## The age loop, the end of a worker, the drain -/

theorem wp_ageTurn (h : monitor.Rests .age w s) : monitor.wp .age (Ended .age) c.ageTurn s w := by
  unfold Config.ageTurn
  rw [wp_bind]
  refine wp_lockWhen h.away fun r s₁ _ h₁ _ => ?_
  cases r with
  | some e => exact wp_leave h₁ fun w' hrests => hrests
  | none =>
    simp only [wp_bind, wp_get h₁]
    split
    · exact wp_leave h₁ fun w' hrests => hrests
    · rw [wp_bind]
      refine wp_ask h₁ fun now _ => ?_
      split
      · rw [wp_bind]
        refine wp_release h₁ fun w₂ hrests => ?_
        exact wp_pause hrests fun _ s₃ w₃ _ h₃ => h₃
      · rw [wp_bind]
        refine wp_transitionLocked (renews_startSegmentLocked _) h₁ fun r s₂ w₂ h₂ _ => ?_
        rw [wp_bind]
        refine wp_release h₂ fun w₃ hrests => ?_
        have h₃ : monitor.Rests .age w₃ s₂ := hrests
        cases r with
        | none => exact wp_return h₃ fun w' hrests => hrests
        | some e =>
          simp only [wp_bind]
          refine wp_workerDone h₃ fun done s₄ w₄ _ h₄ => ?_
          split
          · exact wp_return h₄ fun w' hrests => hrests
          · split
            · exact wp_pause h₄ fun _ s₅ w₅ _ h₅ => h₅
            · rw [wp_bind]
              exact wp_note h₄ fun s₅ w₅ h₅ => wp_return h₅ fun w' hrests => hrests

/-- A worker that goes on is as its turn has left it. -/
theorem wp_worker {turn : P Bool} {Q : Post Bool}
    (h : monitor.wp g (fun goes s w => monitor.Rests g w s ∧ (goes = true → Q true s w)) turn s w)
    (hQ : ∀ s' w', monitor.Rests g w' s' → Q false s' w') (hrely : ∀ s' w' w'', Q true s' w' → (monitor.env g).rely w' w'' → Q true s' w'') :
    monitor.wp g Q (Config.worker turn) s w := by
  unfold Config.worker
  rw [wp_bind]
  refine wp_mono (fun goes s₁ w₁ hturn => ?_) h
  obtain ⟨h₁, hgoes⟩ := hturn
  cases goes with
  | true => exact fun w' hr => hrely s₁ w₁ w' (hgoes rfl) hr
  | false =>
    simp only [Bool.false_eq_true, if_false]
    rw [wp_bind]
    refine wp_lock h₁.away fun s₂ _ h₂ => ?_
    have h₃ : monitor.Held g ⟨some g, s₂⟩ { s₂ with workersWG := s₂.workersWG - 1 } := held_same h₂ rfl
    rw [wp_bind, wp_modify h₂]
    exact wp_leave h₃ fun w' hrests => hQ _ w' hrests

theorem wp_abortSegments {sws : List Segwriter.Writer} {Q : Post (Option Err)}
    (h : monitor.Rests g w s) (hQ : ∀ r w', monitor.Rests g w' s → Q r s w') :
    monitor.wp g Q (Config.abortSegments sws) s w := by
  induction sws generalizing w Q with
  | nil => exact wp_return h fun w' hrests => hQ none w' hrests
  | cons sw sws ih =>
    simp only [Config.abortSegments, wp_bind]
    refine wp_inquire h fun cleanup w₁ h₁ => ?_
    exact ih h₁ fun r w₂ h₂ => wp_return h₂ fun w' hrests => hQ _ w' hrests

theorem wp_runDrain (h : monitor.Rests g w s) : monitor.wp g (Ended g) Config.runDrain s w := by
  unfold Config.runDrain
  rw [wp_bind]
  refine wp_lock h.away fun s₁ _ h₁ => ?_
  simp only [wp_bind, wp_get h₁]
  refine wp_release h₁ fun w₂ hrests => ?_
  refine wp_abortSegments hrests fun cleanupErr w₃ h₃ => ?_
  refine wp_lockWhen h₃.away fun r s₄ _ h₄ _ => ?_
  rw [wp_modify h₄]
  have h₅ : monitor.Held g ⟨some g, s₄⟩ { s₄ with
      drainCleanupErr := joinErrs cleanupErr s₄.drainWorkerErr, drainDone := true } := held_same h₄ rfl
  exact wp_release h₅ fun w' hrests => hrests

end ObjLog.Writer
