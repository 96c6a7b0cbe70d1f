import ObjLog.Writer.Locked
/-!
# `Append`

What a call of `Append` leaves behind: with an error the same log, with a
result one record more, in the active segment or wherever the cut after the
record has put it.
-/

namespace ObjLog.Writer

open Lib Monitor Catformat Pmeta

variable {select : Select} {p : Pipeline}

/-! ## The errors of a segment writer -/

section Outside
open Segwriter

variable {sw : Segwriter.Writer} {t : AppendTurn} {e : Err}

theorem outside_of_sentinels (h : ∀ s ∈ e.sentinels, ∀ x, s ≠ .writer x) : Outside e := by
  intro x
  rw [Err.is, Bool.eq_false_iff]
  intro hmem
  exact h _ (List.contains_iff_mem.1 hmem) x rfl

theorem Outside.sentinels (h : Outside e) : ∀ s ∈ e.sentinels, ∀ x, s ≠ .writer x := by
  rintro _ hs x rfl
  have := h x
  rw [Err.is, Bool.eq_false_iff] at this
  exact this (List.contains_iff_mem.2 hs)

theorem ContextErr.outside (h : ContextErr e) : Outside e := by
  rcases h with rfl | rfl <;> exact fun _ => by simp [Err.is, Err.bare]

theorem outside_of {s : Sentinel} {text : String} (h : ∀ x, s ≠ .writer x) : Outside (.of s text) :=
  outside_of_sentinels (by simpa [Err.of] using h)

theorem outside_headersLenFrom (headers : List Segformat.Header) (i total : Nat) :
    Segwriter.Ends (fun _ => True) Outside (Segformat.headersLenFrom i total headers) := by
  induction headers generalizing i total with
  | nil => trivial
  | cons hd headers ih =>
    simp only [Segformat.headersLenFrom, ends_bind, ends_failIf]
    exact ⟨fun _ => outside_of nofun, fun _ => ⟨fun _ => outside_of nofun, fun _ => ⟨fun _ => outside_of nofun, fun _ =>
      ⟨fun _ => outside_of nofun, fun _ => ih _ _⟩⟩⟩⟩

theorem outside_recordSize (headers : List Segformat.Header) (value : Bytes) :
    Segwriter.Ends (fun _ => True) Outside (Segformat.recordSize headers value) := by
  unfold Segformat.recordSize Segformat.encodedHeadersLen
  simp only [ends_bind, ends_failIf]
  refine ⟨fun _ => outside_of (by simp), fun _ => ?_⟩
  split
  · trivial
  · rw [ends_bind, ends_failIf]
    exact ⟨fun _ => outside_of (by simp), fun _ => (outside_headersLenFrom headers 0 2).mono (fun _ _ => trivial) fun _ h => h⟩

theorem outside_abortWith (hcleanup : ∀ e, t.cleanup = some e → Outside e) (h : Outside e) :
    Outside (sw.abortWith t.cleanup e).1 := by
  unfold Writer.abortWith
  cases hc : t.cleanup with
  | none => exact h
  | some late =>
    refine outside_of_sentinels fun s hs x => ?_
    rcases List.mem_append.1 hs with hs | hs
    · exact h.sentinels s hs x
    · exact (hcleanup late hc).sentinels s hs x

theorem outside_validateRecord (r : Segwriter.Record) :
    Segwriter.Ends (fun _ => True) Outside (sw.validateRecord r) := by
  unfold Writer.validateRecord
  rw [ends_bind]
  refine (outside_recordSize _ _).mono (fun _ _ => ?_) fun _ h => h
  rw [ends_bind, ends_failIf]
  refine ⟨fun _ => outside_of (by simp), fun _ => ?_⟩
  split
  · trivial
  · simp only [ends_bind, ends_failIf]
    exact ⟨fun _ => outside_of (by simp), fun _ => ⟨fun _ => outside_of (by simp), fun _ =>
      ⟨fun _ => outside_of (by simp), fun _ => ⟨fun _ => outside_of (by simp), fun _ => trivial⟩⟩⟩⟩

theorem outside_selectErr (h : OutsideSelect select) (he : sw.selectErr select = some e) : Outside e := by
  have haborted : Outside (.bare (.segwriter .writerAborted)) := outside_of_sentinels (by simp [Err.bare])
  cases select with
  | served => cases he
  | cancelled ctxErr firstErr =>
    cases he
    unfold Writer.appendCancellation
    cases firstErr with
    | some err => exact h.2 err rfl
    | none =>
      dsimp only
      split
      · exact haborted
      · refine outside_of_sentinels fun s hs x => ?_
        rcases List.mem_cons.1 hs with rfl | hs
        · simp
        · exact h.1.outside.sentinels s hs x
  | stopped firstErr =>
    cases he
    cases firstErr with
    | some err => exact h err rfl
    | none => exact haborted

theorem outside_notAccepted (hcleanup : ∀ e, t.cleanup = some e → Outside e) (h : Outside e) :
    Outside (sw.notAccepted t.cleanup e).1 := by
  unfold Writer.notAccepted
  split
  · exact h
  · exact outside_abortWith hcleanup h

theorem outside_takeFreeBuffer (h : OutsideSelect select) (he : sw.takeFreeBuffer select = .error e) : Outside e := by
  unfold Writer.takeFreeBuffer at he
  split at he
  · cases he
  · rename_i err herr
    cases he
    exact outside_selectErr h herr

theorem outside_enqueueActive (h : OutsideSelect select) (he : sw.enqueueActive select = .error e) : Outside e := by
  unfold Writer.enqueueActive at he
  split at he
  · cases he
  · split at he
    · cases he
    · split at he
      · cases he
      · rename_i err herr
        cases he
        exact outside_selectErr h herr

theorem outside_blockAppend (b : BlockBuffer) (r : Segwriter.Record) :
    Segwriter.Ends (fun _ => True) Outside (b.append r) := by
  unfold BlockBuffer.append
  rw [ends_bind]
  refine (outside_recordSize _ _).mono (fun _ _ => ?_) fun _ h => h
  simp only [ends_bind, ends_failIf]
  exact ⟨fun _ => outside_of (by simp), fun _ => ⟨fun _ => outside_of (by simp), fun _ => trivial⟩⟩

/-- A segment writer never returns an error of the partition writer. -/
theorem outside_append (ht : OutsideAppend t) (r : Segwriter.Record) :
    Segwriter.Ends (fun _ => True) (fun e => Outside e.1) (sw.append t r) := by
  have hbare : ∀ s, Outside (.bare (.segwriter s)) := fun s => outside_of_sentinels (by simp [Err.bare])
  unfold Writer.append
  simp only [ends_bind, ends_stopIf, ends_stopOn, ends_orFail]
  refine ⟨fun _ => hbare _, fun _ => ⟨fun _ => hbare _, fun _ => ⟨fun e he => outside_abortWith ht.cleanup (ht.firstErr e he),
    fun _ => ⟨fun e he => outside_abortWith ht.cleanup ((outside_validateRecord r).error he), fun _ _ =>
      ⟨fun e he => outside_abortWith ht.cleanup ((outside_recordSize _ _).error he), fun size _ => ?_⟩⟩⟩⟩⟩
  have hensure : Segwriter.Ends (fun _ => True) (fun e => Outside e.1) (sw.ensureBuffer t) := by
    unfold Writer.ensureBuffer
    split
    · exact ends_orFail.2 ⟨fun e he => outside_notAccepted ht.cleanup (outside_takeFreeBuffer ht.take he), fun _ _ => trivial⟩
    · trivial
  refine hensure.mono (fun w₁ _ => ?_) fun _ h => h
  have hroom : Segwriter.Ends (fun _ => True) (fun e => Outside e.1) (w₁.makeRoom t size) := by
    unfold Writer.makeRoom
    split
    · trivial
    · split
      · rw [ends_bind, ends_orFail]
        exact ⟨fun e he => outside_notAccepted ht.cleanup (outside_enqueueActive ht.enqueue he), fun w₂ _ =>
          ends_orFail.2 ⟨fun e he => outside_notAccepted ht.cleanup (outside_takeFreeBuffer ht.retake he), fun _ _ => trivial⟩⟩
      · trivial
  refine hroom.mono (fun w₂ _ => ?_) fun _ h => h
  exact ⟨fun e he => outside_abortWith ht.cleanup ((outside_blockAppend _ _).error he), fun _ _ => trivial⟩

end Outside

/-- An error of the segment writer makes the partition writer terminal, and says so. -/
theorem fatal_wrapSegmentWrite {e : Err} (h : Outside e) : Fatal (wrapSegmentWrite e) := by
  have hnot : ∀ s, e.is (.writer s) = false := h
  unfold wrapSegmentWrite
  simp only [hnot, Bool.false_eq_true, if_false]
  have hmem : ∀ x, Sentinel.writer x ∉ e.sentinels := fun x hx => h.sentinels _ hx x rfl
  split
  · refine ⟨?_, by simp [Err.under, Err.is, hmem], by simp [Err.under, Err.is, hmem]⟩
    rintro (heq | heq) <;> simp [Err.under, Err.bare] at heq
  · refine ⟨?_, by simp [Err.under, Err.is, hmem], by simp [Err.under, Err.is, hmem]⟩
    rintro (heq | heq) <;> simp [Err.under, Err.bare] at heq

/-! ## The record -/

variable {s s₀ : State} {w : World Goroutine State} {c : Config} {record : Record} {size : UInt64}

/-- The record passes the checks of `Append`. -/
structure Accepts (record : Record) (p : Pipeline) : Prop where
  room : p.optimisticNextLSN ≠ maxUint64
  time : p.hasTimestamp = true → p.lastTimestamp ≤ record.timestampMS

theorem Accepts.same {p' : Pipeline} (h : Accepts record p) (hlog : SameLog p p') : Accepts record p' :=
  ⟨hlog.optimisticNextLSN ▸ h.room, by
    rw [hlog.hasTimestamp, hlog.lastTimestamp]
    exact h.time⟩

theorem accepts_of_checkRecord (h : Config.checkRecord record s = .ok size) : Accepts record s.toPipeline := by
  unfold Config.checkRecord at h
  simp only [checks_ok] at h
  obtain ⟨hroom, htime, _⟩ := h
  exact ⟨hroom, fun hhas => Int64.not_lt.1 fun hlt => htime ⟨hhas, hlt⟩⟩

theorem fatal_of {x : Sentinel} {text : String} (hcancel : x ≠ .canceled) (hdeadline : x ≠ .deadlineExceeded)
    (hstart : x ≠ .writer .segmentStartFailed) (hbudget : x ≠ .writer .recordExceedsInflightBudget) :
    Fatal (.of x text) := by
  refine ⟨?_, by simpa [Err.of, Err.is] using hstart.symm, by simpa [Err.of, Err.is] using hbudget.symm⟩
  rintro (heq | heq)
  · exact hcancel (List.singleton_inj.1 (congrArg Err.sentinels heq))
  · exact hdeadline (List.singleton_inj.1 (congrArg Err.sentinels heq))

theorem fatal_recordSize (headers : List Segformat.Header) (value : Bytes) :
    Segwriter.Ends (fun _ => True) Fatal (Segformat.recordSize headers value) := by
  have hlarge : ∀ text, Fatal (.of .recordTooLarge text) := fun _ => fatal_of nofun nofun nofun nofun
  have hfrom : ∀ (headers : List Segformat.Header) (i total : Nat),
      Segwriter.Ends (fun _ => True) Fatal (Segformat.headersLenFrom i total headers) := by
    intro headers
    induction headers with
    | nil => exact fun _ _ => trivial
    | cons hd headers ih =>
      intro i total
      simp only [Segformat.headersLenFrom, Segwriter.ends_bind, Segwriter.ends_failIf]
      exact ⟨fun _ => fatal_of nofun nofun nofun nofun, fun _ => ⟨fun _ => hlarge _, fun _ => ⟨fun _ => hlarge _, fun _ =>
        ⟨fun _ => hlarge _, fun _ => ih _ _⟩⟩⟩⟩
  unfold Segformat.recordSize Segformat.encodedHeadersLen
  simp only [Segwriter.ends_bind, Segwriter.ends_failIf]
  refine ⟨fun _ => hlarge _, fun _ => ?_⟩
  split
  · trivial
  · rw [Segwriter.ends_bind, Segwriter.ends_failIf]
    exact ⟨fun _ => hlarge _, fun _ => (hfrom headers 0 2).mono (fun _ _ => trivial) fun _ h => h⟩

theorem fatal_checkRecord (record : Record) (s : State) :
    Segwriter.Ends (fun _ => True) Fatal (Config.checkRecord record s) := by
  unfold Config.checkRecord
  simp only [Segwriter.ends_bind, Segwriter.ends_failIf]
  exact ⟨fun _ => fatal_of (by simp) (by simp) (by simp) (by simp), fun _ =>
    ⟨fun _ => fatal_of (by simp) (by simp) (by simp) (by simp), fun _ =>
    (fatal_recordSize _ _).mono (fun _ _ => trivial) fun _ h => h⟩⟩

/-! ## The call -/

/-- The record is among those of the segments, or the writer is terminal and has given its segment up. -/
def Holds (r : Segwriter.Record) (p : Pipeline) : Prop :=
  (p.aborted = false ∧ ∃ piece ∈ p.pieces, r ∈ piece.records) ∨ (p.aborted = true ∧ ∃ sw ∈ p.abandoned, r ∈ sw.records)

/-- One more record has been accepted, with the next LSN. -/
structure Took (record : Record) (p p' : Pipeline) (lsn : UInt64) : Prop where
  lsn_eq : lsn = p.optimisticNextLSN
  room : p.optimisticNextLSN ≠ maxUint64
  next : p'.optimisticNextLSN = p.optimisticNextLSN + 1
  accepted : p'.accepted = p.accepted ++ [record.at lsn]
  hasTimestamp : p'.hasTimestamp = true
  lastTimestamp : p'.lastTimestamp = record.timestampMS
  discarding : p'.discarding = p.discarding
  closed : p'.closed = p.closed
  aborted : p.aborted = true → p'.aborted = true
  holds : Holds (record.at lsn) p'

/-- What `Append` has done to the pipeline when it returns. -/
def Appends (record : Record) (p p' : Pipeline) : Except Err UInt64 → Prop
  | .ok lsn => Took record p p' lsn
  | .error e => Turned p p' (some e)

theorem Appends.after {q q' : Pipeline} {r : Except Err UInt64} (h : Appends record q q' r) (hk : Turned p q none) :
    Appends record p q' r := by
  cases r with
  | error e => exact Turned.after h hk
  | ok lsn =>
    have hlog := hk.toSameLog
    exact {
      lsn_eq := h.lsn_eq.trans hlog.optimisticNextLSN
      room := hlog.optimisticNextLSN ▸ h.room
      next := by rw [h.next, hlog.optimisticNextLSN]
      accepted := by rw [h.accepted, hlog.accepted]
      hasTimestamp := h.hasTimestamp
      lastTimestamp := h.lastTimestamp
      discarding := h.discarding.trans hlog.discarding
      closed := h.closed.trans hlog.closed
      aborted := h.aborted ∘ hlog.aborted
      holds := h.holds }

/-- The call has returned, having left the pipeline of `s` behind. -/
def Returns {α : Type} (post : Pipeline → α → Prop) (r : α) (s : State) (w : World Goroutine State) : Prop :=
  post s.toPipeline r ∧ monitor.Rests .foreground w s

theorem wp_returnErr {g : Goroutine} {α : Type} {e : Err} {Q : Post (Except Err α)}
    (h : monitor.Held g w s) (hQ : ∀ s' w', s'.toPipeline = s.toPipeline → monitor.Rests g w' s' → Q (.error e) s' w') :
    monitor.wp g Q (Config.returnErr e) s w := by
  have hsame := surfaceReturnedErr_pipeline s e
  unfold Config.returnErr
  rw [wp_bind, wp_modify h]
  exact wp_leave (held_same h hsame) fun w' hrests => hQ _ w' hsame hrests

theorem wp_returnFailed {g : Goroutine} {α : Type} {e : Err} {Q : Post (Except Err α)} (h : monitor.Held g w s)
    (hQ : ∀ s' w', s'.toPipeline = s.toPipeline.terminate g → monitor.Rests g w' s' → Q (.error e) s' w') :
    monitor.wp g Q (Config.returnFailed g e) s w := by
  unfold Config.returnFailed failLocked
  rw [wp_bind, wp_modify h]
  exact wp_leave (held_fail h e true) fun w' hrests => hQ _ w' (failWithSurface_pipeline ..) hrests

/-- The state in which the segment writer is given the record. -/
structure Open (record : Record) (s : State) : Prop where
  accepts : Accepts record s.toPipeline
  transition : s.activeTransition = none
  closed : s.closed = false
  aborted : s.aborted = false

theorem wp_tryCutAfterAppendLocked {a : ActiveSegment} {Q : Post Unit}
    (h : monitor.Held .foreground w s) (hfree : s.activeTransition = none) (hactive : s.active = some a)
    (hne : a.records ≠ 0) (hrun : s.aborted = false)
    (hQ : ∀ s₁ w₁, monitor.Held .foreground w₁ s₁ → SameLog s.toPipeline s₁.toPipeline → Placed a s₁.toPipeline →
      Q () s₁ w₁) : monitor.wp .foreground Q c.tryCutAfterAppendLocked s w := by
  unfold Config.tryCutAfterAppendLocked
  rw [wp_bind]
  refine wp_ask h fun now _ => ?_
  rw [wp_bind, wp_get h]
  split
  · rw [wp_bind]
    refine wp_transitionLocked (renews_startSegmentLocked _) h fun r s₁ w₁ h₁ hrot => ?_
    rw [wp_pure h₁]
    exact hQ s₁ w₁ h₁ (hrot.turned rfl).toSameLog (hrot.placed hfree a hactive hne)
  · rw [wp_pure h]
    exact hQ s w h (.refl _) (.inl ⟨hrun, by simp [Pipeline.pieces, hactive]⟩)

theorem Placed.holds {a : ActiveSegment} {r : Segwriter.Record} (h : Placed a p) (hr : r ∈ a.writer.records) :
    Holds r p := by
  rcases h with ⟨hrun, hmem⟩ | ⟨haborted, hmem⟩
  · exact .inl ⟨hrun, a.piece, hmem, hr⟩
  · exact .inr ⟨haborted, a.writer, hmem, hr⟩

section
variable (h : monitor.Held .foreground w s) (ho : Open record s)
include h ho

theorem wp_appendActiveLocked (hsome : s.active.isSome) :
    monitor.wp .foreground (Returns (Appends record s.toPipeline)) (c.appendActiveLocked record size) s w := by
  obtain ⟨a, hactive⟩ := Option.isSome_iff_exists.1 hsome
  unfold Config.appendActiveLocked
  rw [wp_bind, wp_get h]
  simp only [hactive]
  rw [wp_bind]
  refine wp_ask h fun turn hturn => ?_
  have hends := Segwriter.append_ends a.writer turn (record.at s.optimisticNextLSN)
  have houtside : Segwriter.Ends (fun _ => True) (fun e => Outside e.1) (a.writer.append turn (record.at s.optimisticNextLSN)) :=
    outside_append hturn _
  split
  · rename_i err sw heq
    rw [heq] at hends houtside
    have h₁ : monitor.Held .foreground w { s with active := some { a with writer := sw } } :=
      held_move h (.refuse ho.transition hactive hends)
    rw [wp_bind, wp_modify h]
    split
    · rw [wp_bind]
      refine wp_ask h₁ fun callerErr _ => ?_
      exact wp_leave h₁ fun w' hrests => ⟨⟨{ SameLog.refl s.toPipeline with }, .inl⟩, hrests⟩
    · refine wp_returnFailed h₁ fun s' w' hsame hrests => ⟨?_, hrests⟩
      have hfatal := fatal_wrapSegmentWrite houtside
      rw [hsame]
      refine ⟨{ SameLog.refl s.toPipeline with aborted := fun _ => rfl }, fun _ => .inr ⟨_, rfl, hfatal⟩⟩
  · rename_i sw heq
    rw [heq] at hends
    rw [wp_bind]
    refine wp_ask h fun now _ => ?_
    rw [wp_bind, wp_modify h]
    have h₁ : monitor.Held .foreground w (Config.accept record size now sw a s) :=
      held_move h (.accept ho.transition hactive ho.accepts.room ho.accepts.time hends rfl rfl)
    have hactive₁ : (Config.accept record size now sw a s).active = some _ := rfl
    have hmem : record.at s.optimisticNextLSN ∈ sw.records := by
      rw [hends.records]
      simp
    have hne := fun hzero => List.ne_nil_of_mem hmem ((h₁.inv.active _ hactive₁).records_eq_zero.1 hzero)
    rw [wp_bind]
    refine wp_tryCutAfterAppendLocked h₁ ho.transition hactive₁ hne ho.aborted fun s₂ w₂ h₂ hlog hplaced => ?_
    refine wp_leave h₂ fun w' hrests => ⟨?_, hrests⟩
    exact {
      lsn_eq := rfl
      room := ho.accepts.room
      next := hlog.optimisticNextLSN
      accepted := hlog.accepted
      hasTimestamp := hlog.hasTimestamp
      lastTimestamp := hlog.lastTimestamp
      discarding := hlog.discarding
      closed := hlog.closed
      aborted := hlog.aborted
      holds := hplaced.holds hmem }

theorem wp_appendStartedLocked :
    monitor.wp .foreground (Returns (Appends record s.toPipeline)) (c.appendStartedLocked record size) s w := by
  unfold Config.appendStartedLocked
  rw [wp_bind, wp_get h]
  split
  · exact wp_appendActiveLocked h ho ‹_›
  · rename_i hnone
    rw [wp_bind]
    refine wp_startSegmentLocked h (fun e _ => ?_) (fun sw hsw => ?_)
    · exact wp_leave h fun w' hrests => ⟨(Kept.refl _).turned _, hrests⟩
    · have hnone' : s.active = none := by simpa using hnone
      have h₁ : monitor.Held .foreground w (renewed (some (newSegment s.optimisticNextLSN sw)) s) :=
        held_move h (.start ho.transition ho.closed ho.aborted hnone' hsw)
      refine wp_mono (fun r s' w' hret => ⟨?_, hret.2⟩) (wp_appendActiveLocked h₁ ⟨{ ho.accepts with }, ho.transition,
        ho.closed, ho.aborted⟩ rfl)
      cases r with
      | error e => exact { hret.1 with }
      | ok lsn => exact { hret.1 with }

theorem wp_appendSizedLocked :
    monitor.wp .foreground (Returns (Appends record s.toPipeline)) (c.appendSizedLocked record size) s w := by
  unfold Config.appendSizedLocked
  rw [wp_bind]
  refine wp_ask h fun now _ => ?_
  rw [wp_bind, wp_get h]
  split
  · rw [wp_bind]
    refine wp_transitionLocked (renews_startSegmentLocked _) h fun r s₁ w₁ h₁ hrot => ?_
    have hturned := hrot.turned rfl
    cases r with
    | some e =>
      refine wp_returnErr h₁ fun s' w' hsame hrests => ⟨?_, hrests⟩
      rw [hsame]
      exact hturned
    | none =>
      obtain ⟨hfree, hclosed, hrun, _⟩ := hrot.ok rfl
      exact wp_mono (fun r s' w' hret => ⟨hret.1.after hturned, hret.2⟩)
        (wp_appendStartedLocked h₁ ⟨ho.accepts.same hturned.toSameLog, hfree, hclosed, hrun⟩)
  · exact wp_appendStartedLocked h ho

end

theorem wp_append (h : monitor.Away .foreground w s₀) (record : Record) :
    monitor.wp .foreground (Returns (Appends record w.shared.toPipeline)) (c.append record) s w := by
  unfold Config.append
  rw [wp_bind]
  refine wp_lock h.from fun s₁ hothers₁ h₁ => ?_
  rw [wp_bind]
  refine wp_waitActiveTransitionLocked h₁ (fun e s₂ w₂ h₂ hothers₂ _ => ?_)
    (fun s₂ w₂ h₂ hothers₂ _ hfree hclosed hrun => ?_)
  · have hkept := others_kept (hothers₁.trans hothers₂) h.inv
    refine wp_returnErr h₂ fun s' w' hsame hrests => ⟨?_, hrests⟩
    rw [hsame]
    exact hkept.turned _
  · have hkept := others_kept (hothers₁.trans hothers₂) h.inv
    have hfatal := fatal_checkRecord record s₂
    rw [wp_bind, wp_get h₂]
    split
    · rename_i e heq
      rw [heq] at hfatal
      refine wp_returnFailed h₂ fun s' w' hsame hrests => ⟨?_, hrests⟩
      rw [hsame]
      exact (turned_terminate (.inr hfatal)).after (hkept.turned _)
    · rename_i size heq
      dsimp only
      split
      · exact wp_leave h₂ fun w' hrests => ⟨hkept.turned _, hrests⟩
      · exact wp_mono (fun r s' w' hret => ⟨hret.1.after (hkept.turned _), hret.2⟩)
          (wp_appendSizedLocked h₂ ⟨accepts_of_checkRecord heq, hfree, hclosed, hrun⟩)

end ObjLog.Writer
