import ObjLog.Lib.Paging
import ObjLog.Catengine.History
/-!
# Listing is exact

The collectors ignore what lies before the start and everything after they are
full, so the searches and early exits of a descent change nothing: a listing is
one fold over the whole history (`listSegments_eq`).
-/

namespace ObjLog.Catengine

open Lib Catformat Pmeta Blobstore

variable {c : PageCollector}

/-! ## Loops that stop early -/

theorem foldl_fixed {α σ : Type} {step : σ → α → σ} {s : σ} (l : List α) (h : ∀ a ∈ l, step s a = s) :
    l.foldl step s = s := by
  induction l with
  | nil => rfl
  | cons a l ih =>
    rw [List.foldl_cons, h a List.mem_cons_self]
    exact ih fun b hb => h b (List.mem_cons_of_mem _ hb)

theorem foldl_keeps {α σ : Type} {step : σ → α → σ} {I : σ → Prop} (hkeep : ∀ s a, I s → I (step s a)) (l : List α)
    {s : σ} (hs : I s) : I (l.foldl step s) := by
  induction l generalizing s with
  | nil => exact hs
  | cons a l ih => exact ih (hkeep s a hs)

/-- A loop over groups that stops when done folds over all their elements, when a step does nothing
once done. `I` is what every step keeps and every turn may rely on. -/
theorem eval_untilDone {α β σ : Type} {pages : Pages} (done : σ → Bool) {body : σ → β → M σ} {step : σ → α → σ}
    (I : σ → Prop) (hkeep : ∀ s a, I s → I (step s a)) (hdone : ∀ s a, done s = true → step s a = s) {rs : List β}
    {ls : List (List α)} (hbody : List.Forall₂ (fun r m => ∀ s, I s → eval pages (body s r) = .ok (m.foldl step s)) rs ls)
    {s : σ} (hs : I s) : eval pages (untilDone done body rs s) = .ok (ls.flatten.foldl step s) := by
  induction hbody generalizing s with
  | nil => rfl
  | @cons r m rs ls hr _ ih =>
    rw [untilDone]
    split
    · rename_i hd
      rw [foldl_fixed _ fun a _ => hdone s a hd]
      rfl
    · rw [eval_bind, hr s hs, List.flatten_cons, List.foldl_append]
      exact ih (foldl_keeps hkeep m hs)

theorem forall₂_singletons {α : Type} {R : α → List α → Prop} (l : List α) (h : ∀ a ∈ l, R a [a]) :
    List.Forall₂ R l (l.map ([·])) := by
  rw [List.forall₂_map_right_iff, List.forall₂_same]
  exact h

theorem flatten_singletons {α : Type} (l : List α) : (l.map ([·])).flatten = l := by
  rw [← List.flatMap_def]
  exact List.flatMap_singleton' l

/-- Elements a step ignores can be left out of a fold. -/
theorem foldl_filter_ignored {α σ : Type} {step : σ → α → σ} {p : α → Bool} {I : σ → Prop}
    (hkeep : ∀ s a, I s → I (step s a)) (hskip : ∀ s a, I s → p a = false → step s a = s) (l : List α) {s : σ}
    (hs : I s) : (l.filter p).foldl step s = l.foldl step s := by
  induction l generalizing s with
  | nil => rfl
  | cons a l ih =>
    by_cases hp : p a = true
    · rw [List.filter_cons_of_pos hp, List.foldl_cons, List.foldl_cons]
      exact ih (hkeep s a hs)
    · rw [List.filter_cons_of_neg hp, List.foldl_cons, hskip s a hs (by simpa using hp)]
      exact ih hs

/-- The same from the first group that passes: the groups before it hold only what every step ignores. -/
theorem eval_untilDone_from {α β σ : Type} {pages : Pages} (done : σ → Bool) {body : σ → β → M σ} {step : σ → α → σ}
    (I : σ → Prop) (hkeep : ∀ s a, I s → I (step s a)) (hdone : ∀ s a, done s = true → step s a = s) {p : α → Bool}
    {q : β → Bool} {R : β → List α → Prop} (hR : ∀ r m, R r m → Summary p q r m) {rs : List β} {ls : List (List α)}
    (h : List.Forall₂ R rs ls) (hup : Upward p ls.flatten) (hskip : ∀ s a, I s → p a = false → step s a = s)
    (hbody : ∀ r m s, R r m → I s → eval pages (body s r) = .ok (m.foldl step s)) {s : σ} (hs : I s) :
    eval pages (untilDone done body (rs.drop (searchList rs q)) s) = .ok (ls.flatten.foldl step s) := by
  rw [drop_searchList_filter _ (upward_summaries (h.imp hR) hup), ← foldl_filter_ignored hkeep hskip _ hs]
  rcases filter_groups hR h hup with ⟨hnone, hflat⟩ | ⟨r, rest, m, ms, hr, hrest, hkept, hflat⟩
  · rw [hnone, hflat]
    rfl
  · have hgroups : List.Forall₂ (fun r m => ∀ s, I s → eval pages (body s r) = .ok (m.foldl step s))
        (r :: rest) (m :: ms) :=
      .cons (fun s => hbody r m s hr) (hrest.imp fun r m hx s => hbody r m s hx)
    rw [hkept, hflat, eval_untilDone done I hkeep hdone hgroups hs, List.flatten_cons, List.foldl_append,
      List.foldl_append, foldl_filter_ignored hkeep hskip _ hs]

theorem summary_singleton {α : Type} (p : α → Bool) {a : α} {m : List α} (h : m = [a]) : Summary p p a m := by
  subst h
  exact ⟨by simp, by simp⟩

section
variable [Hashes] {config : Config} {pages : Pages}

/-! ## Segments -/

theorem add_done (h : c.done = true) (e : LeafEntry) : c.add config e = c := by
  simp [PageCollector.add, h]

theorem add_fromLSN (c : PageCollector) (e : LeafEntry) : (c.add config e).fromLSN = c.fromLSN := by
  unfold PageCollector.add
  split
  · rfl
  · split <;> rfl

theorem add_before {e : LeafEntry} (h : endsFrom c.fromLSN e = false) : c.add config e = c := by
  have hlt : e.lastLSN < c.fromLSN := by
    simp only [endsFrom, ge_iff_le, decide_eq_false_iff_not] at h
    exact UInt64.not_le.1 h
  simp [PageCollector.add, hlt]

theorem foldl_add_before {from_ : UInt64} (l : List LeafEntry) (hc : c.fromLSN = from_) :
    (l.filter (endsFrom from_)).foldl (PageCollector.add config) c = l.foldl (PageCollector.add config) c :=
  foldl_filter_ignored (I := fun c => c.fromLSN = from_) (fun s a hs => (add_fromLSN s a).trans hs)
    (fun _ _ hs ha => add_before (hs ▸ ha)) l hc

/-- Collecting below a reference is adding everything below it. -/
theorem collectPage_eq (depth : Nat) {ref : IndexEntry} {e : UInt64} {l : List LeafEntry}
    (h : leaves config pages depth ref e = .ok l) :
    eval pages (collectPage config depth ref e c) = .ok (l.foldl (PageCollector.add config) c) := by
  induction depth using Nat.strongRecOn generalizing ref e l c with
  | ind depth ih =>
    have hcov := leaves_covers _ h
    have hup := endsFrom_upward hcov.tiles c.fromLSN
    rw [collectPage.eq_def]
    split
    · -- full already, or everything below ends before the start
      rename_i hskip
      have hfix : l.foldl (PageCollector.add config) c = c := by
        rcases hskip with hd | hlt
        · exact foldl_fixed l fun x _ => add_done hd x
        · rw [← foldl_add_before l rfl, List.filter_eq_nil_iff.2]
          · rfl
          · intro x hx
            have := hcov.tiles.mem_bounds hx
            rw [UInt64.lt_iff_toNat_lt] at hlt
            simp only [endsFrom, ge_iff_le, decide_eq_true_eq, UInt64.le_iff_toNat_le]
            omega
      rw [hfix]
      rfl
    · obtain ⟨h0, page, hp, rfl⟩ | ⟨h0, d, page, ls, rfl, hp, hls, rfl⟩ := leaves_cases.1 h
      · rw [if_pos h0, eval_bind, hp]
        rw [← flatten_singletons page.entries] at hup ⊢
        exact eval_untilDone_from PageCollector.done (fun s => s.fromLSN = c.fromLSN)
          (fun s a hs => (add_fromLSN s a).trans hs) (fun _ e hd => add_done hd e)
          (fun _ _ hm => summary_singleton (endsFrom c.fromLSN) hm) (forall₂_singletons _ fun _ _ => rfl) hup
          (fun _ _ hs ha => add_before (hs ▸ ha)) (fun _ _ _ hm _ => hm ▸ rfl) rfl
      · rw [if_neg h0]
        dsimp only
        rw [eval_bind, hp]
        exact eval_untilDone_from PageCollector.done (fun s => s.fromLSN = c.fromLSN)
          (fun s a hs => (add_fromLSN s a).trans hs) (fun _ e hd => add_done hd e)
          (fun _ _ hx => covers_summary_lsn (leaves_covers _ hx) rfl _) hls hup
          (fun _ _ hs ha => add_before (hs ▸ ha)) (fun _ _ _ hx _ => ih d (Nat.lt_succ_self d) hx) rfl

/-- The collector of the source, as what it has kept and where it resumes. -/
def segmentCollector (config : Config) (from_ : UInt64) (limit : Nat) (c : Collector LeafEntry) : PageCollector where
  fromLSN := from_
  limit := limit
  segments := c.kept.map config.segmentRef
  nextLSN := (c.resume.map (·.baseLSN)).getD 0
  hasMore := c.resume.isSome

theorem segmentCollector_add (from_ : UInt64) (limit : Nat) (c : Collector LeafEntry) (e : LeafEntry) :
    (segmentCollector config from_ limit c).add config e =
      segmentCollector config from_ limit (c.add (endsFrom from_) limit e) := by
  have hends : endsFrom from_ e = !decide (e.lastLSN < from_) := by
    rw [endsFrom, ← decide_not]
    simp only [ge_iff_le, UInt64.not_lt]
  unfold PageCollector.add Collector.add
  cases hr : c.resume with
  | some x => simp [segmentCollector, PageCollector.done, hr]
  | none =>
    by_cases hb : e.lastLSN < from_
    · simp [segmentCollector, PageCollector.done, hr, hb, hends]
    · by_cases hfull : c.kept.length = limit <;>
        simp [segmentCollector, PageCollector.done, hr, hb, hends, hfull]

/-- Adding a whole history keeps the first `limit` entries from the start on. -/
theorem segmentCollector_foldl (from_ : UInt64) (limit : Nat) (l : List LeafEntry) :
    l.foldl (PageCollector.add config) ⟨from_, limit, [], 0, false⟩ =
      segmentCollector config from_ limit ⟨(l.filter (endsFrom from_)).take limit, (l.filter (endsFrom from_))[limit]?⟩ := by
  have hstart : segmentCollector config from_ limit ⟨[], none⟩ = ⟨from_, limit, [], 0, false⟩ := rfl
  rw [← Collector.collect_eq, ← hstart]
  exact List.foldl_hom (segmentCollector config from_ limit) (segmentCollector_add from_ limit)

/-- One page of a history. -/
def segmentPage (config : Config) (limit : Nat) (from_ : UInt64) (l : List LeafEntry) : SegmentPage where
  segments := ((l.filter (endsFrom from_)).take limit).map config.segmentRef
  nextLSN := ((l.filter (endsFrom from_))[limit]?.map (·.baseLSN)).getD 0
  hasMore := (l.filter (endsFrom from_))[limit]?.isSome

/-- `ListSegments` returns one page of the history. -/
theorem listSegments_eq {head : Head} {l : List LeafEntry} (h : Inv config pages head l) (from_ : UInt64)
    (limit : Int) :
    eval pages (listSegments config head from_ limit) = .ok (segmentPage config (pageLimit limit) from_ l) := by
  simp only [listSegments, reads_ok, h.identity]
  change eval pages (if _ then _ else _) = _
  split
  · -- nothing is retained from the start on
    rename_i hnone
    have hnil : l.filter (endsFrom from_) = [] := by
      rcases hnone with hno | hge
      · rw [h.nil_of_oldest_eq_next (h.oldest_eq_next (by simpa using hno))]
        rfl
      · exact filter_endsFrom_nil h.tiles (UInt64.le_iff_toNat_le.1 hge)
    simp [segmentPage, hnil]
  · obtain ⟨ls, hls, rfl⟩ := h.roots
    -- each turn of the loop adds everything below one root
    have hbody : List.Forall₂ (fun root m => ∀ c : PageCollector, c.fromLSN = from_ →
        eval pages (collectRoot config head from_ c root) = .ok (m.foldl (PageCollector.add config) c))
        (headRoots head) ls := by
      refine hls.imp fun root m hr c hc => ?_
      have hcov := hr.covers h.valid
      unfold collectRoot
      split
      · rename_i hlt
        have hhi : root.range.seqHi = root.seqHi := by cases root <;> rfl
        rw [← foldl_add_before m hc, filter_endsFrom_nil hcov.tiles (by rw [hhi]; exact UInt64.lt_iff_toNat_lt.1 hlt)]
        rfl
      · cases root with
        | ref r => exact collectPage_eq _ hr.2
        | leaf e =>
          obtain rfl : [e] = m := by simpa [HeadRoot.leaves] using hr.2
          rfl
    have hstart : (⟨from_, pageLimit limit, [], 0, false⟩ : PageCollector).fromLSN = from_ := rfl
    rw [eval_bind, eval_untilDone PageCollector.done (fun c => c.fromLSN = from_) (fun c e hc => (add_fromLSN c e).trans hc)
      (fun _ e hd => add_done hd e) hbody hstart, segmentCollector_foldl]
    rfl

end

end ObjLog.Catengine
