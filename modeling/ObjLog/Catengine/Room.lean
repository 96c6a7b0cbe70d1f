import Mathlib.Data.List.TakeWhile
import Mathlib.Tactic.Ring
import ObjLog.Catengine.History
/-!
# Room in the sections

The sections count leaf pages in base `indexLimit`: a reference in section `j`
was sealed from `indexLimit ^ j` leaves. A carry keeps this weight and retention
only lowers it, so the weight of a head never passes the number of segments it
was ever given.
-/

namespace ObjLog.Catengine

open Lib Catformat Pmeta Blobstore

variable {ss ss' : List OpenIndexSection} {s : OpenIndexSection} {generation writerEpoch : UInt64} {head : Head}
   {objects : List PageObject} {pages : Pages}

/-- The number the sections stand for, lowest digit first. -/
def weight (base : Nat) : List OpenIndexSection → Nat
  | [] => 0
  | s :: ss => s.entries.length + base * weight base ss

section
variable {base : Nat}

theorem weight_append (xs ys : List OpenIndexSection) :
    weight base (xs ++ ys) = weight base xs + base ^ xs.length * weight base ys := by
  induction xs with
  | nil => simp [weight]
  | cons x xs ih =>
    rw [List.cons_append, weight, ih, weight, List.length_cons, Nat.pow_succ]
    ring

theorem weight_eq_zero (h : ∀ s ∈ ss, s.entries = []) : weight base ss = 0 := by
  induction ss with
  | nil => rfl
  | cons s ss ih => simp [weight, h s List.mem_cons_self, ih fun t ht => h t (List.mem_cons_of_mem _ ht)]

theorem weight_grow (level : Nat) (ss : List OpenIndexSection) : weight base (growSections level ss) = weight base ss := by
  have hnew : weight base ((List.range' (ss.length + 1) (level - ss.length)).map fun n => ⟨UInt8.ofNat n, []⟩) = 0 := by
    refine weight_eq_zero fun s hs => ?_
    obtain ⟨n, _, rfl⟩ := List.mem_map.1 hs
    rfl
  rw [growSections, weight_append, hnew, Nat.mul_zero, Nat.add_zero]

theorem SplitAt.weight (base : Nat) {lower upper : List OpenIndexSection} {i : Nat} (h : SplitAt ss i lower s upper) :
    Catengine.weight base ss =
      Catengine.weight base lower + base ^ i * (s.entries.length + base * Catengine.weight base upper) := by
  rw [h.eq, weight_append, h.index, Catengine.weight]

theorem SplitAt.weight_setEntries {lower upper : List OpenIndexSection} {i : Nat}
    (h : SplitAt ss i lower s upper) (es : List IndexEntry) : Catengine.weight base (Catengine.setEntries ss i es) =
      Catengine.weight base lower + base ^ i * (es.length + base * Catengine.weight base upper) := by
  rw [h.setEntries, weight_append, h.index, Catengine.weight]

/-- How many references section `i + 1` holds; a section that is not there holds none. -/
def sectionSize (ss : List OpenIndexSection) (i : Nat) : Nat := ((ss[i]?.map (·.entries)).getD []).length

/-- Fewer references in each section weigh less. -/
theorem weight_le (h : ∀ i, sectionSize ss' i ≤ sectionSize ss i) : weight base ss' ≤ weight base ss := by
  induction ss' generalizing ss with
  | nil => exact Nat.zero_le _
  | cons s' ss' ih =>
    cases ss with
    | nil =>
      have hhead : s'.entries.length = 0 := Nat.le_zero.1 (h 0)
      have htail : weight base ss' = 0 := Nat.le_zero.1 (@ih [] fun i => h (i + 1))
      simp [weight, hhead, htail]
    | cons s ss => exact Nat.add_le_add (h 0) (Nat.mul_le_mul_left _ (ih fun i => h (i + 1)))

theorem sectionSize_dropEmptyTail (ss : List OpenIndexSection) (i : Nat) :
    sectionSize (dropEmptyTail ss) i ≤ sectionSize ss i := by
  have hsplit : ss = dropEmptyTail ss ++ (ss.reverse.takeWhile fun s => s.entries.isEmpty).reverse := by
    rw [dropEmptyTail, ← List.reverse_append, List.takeWhile_append_dropWhile, List.reverse_reverse]
  rcases Nat.lt_or_ge i (dropEmptyTail ss).length with hi | hi
  · conv_rhs => rw [hsplit, sectionSize, List.getElem?_append_left hi]
    exact Nat.le_refl _
  · rw [sectionSize, List.getElem?_eq_none hi]
    exact Nat.zero_le _

end

section
variable [Hashes] {config : Config}

/-! ## Appending -/

/-- A carry keeps the weight. -/
theorem push_weight (fuel : Nat) {level : Nat} {ref : IndexEntry}
    (h : push config generation writerEpoch fuel level ref ss = .ok (ss', objects)) :
    weight config.indexLimit.toNat ss' ≤ weight config.indexLimit.toNat ss + config.indexLimit.toNat ^ (level - 1) := by
  induction fuel generalizing level ref ss ss' objects with
  | zero => simp [push] at h
  | succ fuel ih =>
    simp only [push, checks_ok, not_or, Nat.not_lt, gt_iff_lt] at h
    obtain ⟨⟨hpos, hmax⟩, _, h⟩ := h
    obtain ⟨lower, s, upper, hsplit⟩ := exists_splitAt_grow hpos ss
    rw [hsplit.entries] at h
    rw [← weight_grow level ss, hsplit.weight]
    split at h
    · simp only [pure_ok, Prod.mk.injEq] at h
      obtain ⟨rfl, _⟩ := h
      rw [hsplit.weight_setEntries, List.length_append]
      apply Nat.le_of_eq
      simp only [List.length_singleton]
      ring
    · -- the sealed section had at least `indexLimit` references
      rename_i hfull
      simp only [checks_ok, Prod.exists] at h
      obtain ⟨parent, object, _, ss1, rest, hpush, rfl, _⟩ := h
      have hcount : config.indexLimit.toNat ≤ s.entries.length + 1 := by
        have hle := UInt32.le_iff_toNat_le.1 (UInt32.not_lt.1 hfull)
        rw [UInt32.toNat_ofNat', List.length_append] at hle
        exact Nat.le_trans hle (Nat.mod_le _ _)
      have hrec := ih hpush
      rw [hsplit.weight_setEntries] at hrec
      obtain ⟨n, rfl⟩ : ∃ n, level = n + 1 := ⟨level - 1, by omega⟩
      simp only [Nat.add_sub_cancel, List.length_nil, Nat.zero_add] at hrec ⊢
      have hcarry := Nat.mul_le_mul_left (config.indexLimit.toNat ^ n) hcount
      rw [Nat.pow_succ] at hrec
      generalize config.indexLimit.toNat = base at hrec hcarry ⊢
      calc weight base ss1
          ≤ weight base lower + base ^ n * (base * weight base upper) + base ^ n * base := hrec
        _ ≤ weight base lower + base ^ n * (base * weight base upper) + base ^ n * (s.entries.length + 1) := by omega
        _ = weight base lower + base ^ n * (s.entries.length + base * weight base upper) + base ^ n := by ring

/-- Placing an entry adds its weight and no more. -/
theorem place_weight {header : HeadHeader} {active active' : List LeafEntry}
    (h : place config header active ss = .ok (active', ss', objects)) :
    config.leafLimit.toNat * weight config.indexLimit.toNat ss' + active'.length ≤
      config.leafLimit.toNat * weight config.indexLimit.toNat ss + active.length := by
  unfold place at h
  split at h
  · rename_i hfull
    simp only [checks_ok, Prod.exists] at h
    obtain ⟨ref, object, _, ss1, rest, hpush, rfl, rfl, _⟩ := h
    have hle : config.leafLimit.toNat ≤ active.length := by
      rw [← hfull, UInt32.toNat_ofNat']
      exact Nat.mod_le _ _
    have hmul := Nat.mul_le_mul_left config.leafLimit.toNat (push_weight pushFuel hpush)
    simp only [Nat.sub_self, Nat.pow_zero, Nat.mul_add, Nat.mul_one] at hmul
    simp only [List.length_nil, Nat.add_zero]
    omega
  · simp only [pure_ok, Prod.mk.injEq] at h
    obtain ⟨rfl, rfl, _⟩ := h
    exact Nat.le_refl _

/-! ## Retention -/

theorem trimSection_length {effective : UInt64} {s' : OpenIndexSection}
    (h : eval pages (trimSection config effective generation writerEpoch s) = .ok (s', objects)) :
    s'.entries.length ≤ s.entries.length := by
  unfold trimSection at h
  have hdrop : (s.entries.drop (searchList s.entries fun e => decide (e.seqHi ≥ effective))).length ≤ s.entries.length := by
    rw [List.length_drop]
    omega
  split at h
  · simp only [reads_ok] at h
    obtain ⟨rfl, _⟩ := h
    exact Nat.zero_le _
  · rename_i first rest heq
    rw [heq] at hdrop
    split at h
    · simp only [reads_ok, bind_ok, Prod.exists] at h
      obtain ⟨_, _, _, rfl, _⟩ := h
      exact hdrop
    · simp only [reads_ok] at h
      obtain ⟨rfl, _⟩ := h
      exact hdrop

theorem trimSections_length {effective : UInt64}
    (h : eval pages (trimSections config effective generation writerEpoch ss) = .ok (ss', objects)) (i : Nat) :
    sectionSize ss' i ≤ sectionSize ss i := by
  induction ss generalizing ss' objects i with
  | nil =>
    simp only [trimSections, reads_ok] at h
    rw [h.1]
  | cons s ss ih =>
    simp only [trimSections, reads_ok, bind_ok, Prod.exists] at h
    obtain ⟨s1, _, hs, ss1, _, hss, rfl, _⟩ := h
    cases i with
    | zero => exact trimSection_length hs
    | succ i => exact ih hss i

/-- What a head weighs in segments. -/
def headWeight (config : Config) (head : Head) : Nat :=
  config.leafLimit.toNat * weight config.indexLimit.toNat head.sections + head.active.length

/-- Nothing was added to a head. -/
structure Fewer (next head : Head) : Prop where
  active : next.active.length ≤ head.active.length
  sections : ∀ i, sectionSize next.sections i ≤ sectionSize head.sections i

omit [Hashes] in
theorem Fewer.refl (head : Head) : Fewer head head := ⟨Nat.le_refl _, fun _ => Nat.le_refl _⟩

theorem cutHistory_fewer {next next' : Head} {target : UInt64}
    (h : eval pages (cutHistory config head next target) = .ok (next', objects)) : Fewer next' next := by
  unfold cutHistory at h
  split at h
  · simp only [reads_ok] at h
    exact h.1 ▸ .refl _
  · split at h
    · simp only [reads_ok] at h
      obtain ⟨rfl, _⟩ := h
      exact ⟨Nat.zero_le _, fun _ => Nat.zero_le _⟩
    · rw [eval_bind, bind_ok] at h
      obtain ⟨found, _, h⟩ := h
      cases found with
      | none => simp at h
      | some segment =>
        dsimp only at h
        split at h
        · simp only [trimHead, reads_ok, checks_ok, Prod.exists] at h
          obtain ⟨_, _, ⟨ss, _, hss, _, rfl, _⟩, rfl, _⟩ := h
          exact ⟨by simp, fun i => Nat.le_trans (sectionSize_dropEmptyTail ss i) (trimSections_length hss i)⟩
        · simp only [reads_ok] at h
          exact h.1 ▸ .refl _

/-- Retention only takes entries away. -/
theorem applyRetention_fewer {before version : UInt64} {m : Mutation}
    (h : eval pages (applyRetention config head before version) = .ok m) : Fewer m.head head := by
  simp only [applyRetention, reads_ok, checks_ok] at h
  obtain ⟨_, _, _, h⟩ := h
  split at h
  · simp only [reads_ok, bind_ok] at h
    obtain ⟨_, _, rfl⟩ := h
    exact .refl _
  · simp only [reads_ok, checks_ok, Prod.exists] at h
    obtain ⟨_, _, _, next, _, hcut, _, _, _, _, rfl⟩ := h
    have hfewer := cutHistory_fewer hcut
    exact ⟨hfewer.active, hfewer.sections⟩

/-! ## Every reachable head -/

theorem append_weight {segment : SegmentRef} {m : Mutation} (h : append config head segment = .ok m) :
    headWeight config m.head ≤ headWeight config head + 1 := by
  obtain ⟨active, ss, _, hp, hhead, _⟩ := append_ok h
  have hw := place_weight hp
  rw [List.length_append] at hw
  rw [hhead]
  exact hw

/-- A head never weighs more than the segments it was given. -/
theorem Reachable.weight_le (h : Reachable config pages head) :
    headWeight config head ≤ head.header.segmentCount.toNat := by
  induction h with
  | new h =>
    simp only [newHead, checks_ok] at h
    obtain ⟨_, _, _, rfl, _⟩ := h
    simp [headWeight, weight, emptyHead]
  | takeover _ h _ _ ih =>
    obtain ⟨ht, _, _, _⟩ := takeover_ok h
    rw [ht.eq]
    exact ih
  | append _ h _ _ ih =>
    rw [(append_counters h).1]
    exact Nat.le_trans (append_weight h) (Nat.add_le_add_right ih 1)
  | retention hreach h hg hs ih =>
    obtain ⟨l, hi⟩ := hreach.inv
    have hfewer := applyRetention_fewer h
    refine Nat.le_trans (Nat.add_le_add (Nat.mul_le_mul_left _ (Catengine.weight_le hfewer.sections)) hfewer.active) ?_
    obtain ⟨_, ⟨hsame, _, _⟩ | ⟨ha, _⟩⟩ := applyRetention_spec hi h hg hs
    · rw [hsame]
      exact ih
    · rw [ha.header]
      exact ih

end

end ObjLog.Catengine
