import ObjLog.Lib.Search
import Mathlib.Data.List.Forall2
/-!
# Searching a list through groups

A long list is cut into non-empty groups `ls`, and each group has a summary in
`rs` that passes `q` exactly when the group's last element passes `p`. When `p`
is upward on the whole list, searching the summaries and then one group finds
what a search of the whole list would.
-/

namespace ObjLog.Lib

section Forall₂
variable {α β : Type} {R : α → β → Prop} {xs : List α} {ys : List β}

theorem forall₂_with_mem (h : List.Forall₂ R xs ys) : List.Forall₂ (fun a b => a ∈ xs ∧ R a b) xs ys := by
  induction h with
  | nil => exact .nil
  | cons hab _ ih => exact .cons ⟨List.mem_cons_self, hab⟩ (ih.imp fun _ _ h => ⟨List.mem_cons_of_mem _ h.1, h.2⟩)

theorem forall₂_mem_left {a : α} (h : List.Forall₂ R xs ys) (ha : a ∈ xs) : ∃ b ∈ ys, R a b := by
  induction h with
  | nil => simp at ha
  | @cons x y xs ys hxy _ ih =>
    rcases List.mem_cons.1 ha with rfl | ha
    · exact ⟨y, List.mem_cons_self, hxy⟩
    · obtain ⟨b, hb, hr⟩ := ih ha
      exact ⟨b, List.mem_cons_of_mem _ hb, hr⟩

theorem forall₂_exists {γ : Type} {S : α → γ → Prop} (h : List.Forall₂ R xs ys) (hS : ∀ a b, R a b → ∃ c, S a c) :
    ∃ zs, List.Forall₂ S xs zs := by
  induction h with
  | nil => exact ⟨[], .nil⟩
  | cons hab _ ih =>
    obtain ⟨c, hc⟩ := hS _ _ hab
    obtain ⟨zs, hzs⟩ := ih
    exact ⟨c :: zs, .cons hc hzs⟩

end Forall₂

variable {α β : Type} {p : α → Bool} {q : β → Bool} {ls : List (List α)} {rs : List β}

/-- `r` summarises the group `m`. -/
structure Summary (p : α → Bool) (q : β → Bool) (r : β) (m : List α) : Prop where
  nonempty : m ≠ []
  last : ∀ a ∈ m.getLast?, q r = p a

/-- A summary passes when something in its group does. -/
theorem Summary.any {r : β} {m : List α} (h : Summary p q r m) (hup : Upward p m) : q r = m.any p := by
  rw [h.last _ (List.getLast?_eq_some_getLast h.nonempty)]
  rw [Bool.eq_iff_iff, List.any_eq_true]
  constructor
  · intro hp
    exact ⟨_, List.getLast_mem h.nonempty, hp⟩
  · rintro ⟨a, ha, hp⟩
    -- `a` is the last element or stands before it
    obtain ⟨ys, hys⟩ : ∃ ys, m = ys ++ [m.getLast h.nonempty] := ⟨_, (List.dropLast_append_getLast _).symm⟩
    rw [hys] at ha hup
    rcases List.mem_append.1 ha with ha | ha
    · exact (List.pairwise_append.1 hup).2.2 a ha _ List.mem_cons_self hp
    · exact List.mem_singleton.1 ha ▸ hp

theorem Upward.append_iff {xs ys : List α} :
    Upward p (xs ++ ys) ↔ Upward p xs ∧ Upward p ys ∧ ∀ a ∈ xs, ∀ b ∈ ys, p a = true → p b = true :=
  List.pairwise_append

/-- The summaries are upward too. -/
theorem upward_summaries (h : List.Forall₂ (Summary p q) rs ls) (hup : Upward p ls.flatten) : Upward q rs := by
  induction h with
  | nil => exact .nil
  | @cons r m rs ls hr hrs ih =>
    rw [List.flatten_cons] at hup
    obtain ⟨hm, hls, hcross⟩ := Upward.append_iff.1 hup
    refine Upward.cons_iff.2 ⟨fun r' hr' hq => ?_, ih hls⟩
    obtain ⟨a, ha, hpa⟩ := List.any_eq_true.1 (hr.any hm ▸ hq)
    obtain ⟨m', hm', hs'⟩ := forall₂_mem_left hrs hr'
    have hlast := List.getLast_mem hs'.nonempty
    rw [hs'.last _ (List.getLast?_eq_some_getLast hs'.nonempty)]
    exact hcross a ha _ (List.mem_flatten.2 ⟨m', hm', hlast⟩) hpa

/-- The first element that passes lies in the first group whose summary does. -/
theorem find?_groups {R : β → List α → Prop} (hR : ∀ r m, R r m → Summary p q r m)
    (h : List.Forall₂ R rs ls) (hup : Upward p ls.flatten) : (rs.find? q = none ∧ ls.flatten.find? p = none) ∨
      ∃ r m, R r m ∧ rs.find? q = some r ∧ ls.flatten.find? p = m.find? p := by
  induction h with
  | nil => exact .inl ⟨rfl, rfl⟩
  | @cons r m rs ls hr _ ih =>
    rw [List.flatten_cons] at hup ⊢
    obtain ⟨hm, hls, _⟩ := Upward.append_iff.1 hup
    by_cases hq : q r = true
    · obtain ⟨a, ha, hpa⟩ := List.any_eq_true.1 ((hR r m hr).any hm ▸ hq)
      obtain ⟨b, hb⟩ := Option.isSome_iff_exists.1 (List.find?_isSome.2 ⟨a, ha, hpa⟩)
      exact .inr ⟨r, m, hr, by simp [hq], by simp [List.find?_append, hb]⟩
    · have hnone : m.find? p = none := by
        rw [List.find?_eq_none]
        intro a ha hpa
        exact hq ((hR r m hr).any hm ▸ List.any_eq_true.2 ⟨a, ha, hpa⟩)
      have hskip : (r :: rs).find? q = rs.find? q := by simp [hq]
      rw [hskip, List.find?_append, hnone, Option.none_or]
      exact ih hls

/-- What passes is part of the first group whose summary passes, and every later group. -/
theorem filter_groups {R : β → List α → Prop} (hR : ∀ r m, R r m → Summary p q r m)
    (h : List.Forall₂ R rs ls) (hup : Upward p ls.flatten) : (rs.filter q = [] ∧ ls.flatten.filter p = []) ∨
      ∃ r rest m ms, R r m ∧ List.Forall₂ R rest ms ∧ rs.filter q = r :: rest ∧
        ls.flatten.filter p = m.filter p ++ ms.flatten := by
  induction h with
  | nil => exact .inl ⟨rfl, rfl⟩
  | @cons r m rs ls hr hrs ih =>
    have hall := upward_summaries (.cons (hR r m hr) (hrs.imp hR)) hup
    rw [List.flatten_cons] at hup ⊢
    obtain ⟨hm, hls, hcross⟩ := Upward.append_iff.1 hup
    rw [List.filter_append]
    by_cases hq : q r = true
    · -- everything after a group that passes somewhere passes everywhere
      obtain ⟨a, ha, hpa⟩ := List.any_eq_true.1 ((hR r m hr).any hm ▸ hq)
      have hrest : rs.filter q = rs := List.filter_eq_self.2 fun b hb => (Upward.cons_iff.1 hall).1 b hb hq
      have hflat : ls.flatten.filter p = ls.flatten := List.filter_eq_self.2 fun b hb => hcross a ha b hb hpa
      exact .inr ⟨r, rs, m, ls, hr, hrs, by rw [List.filter_cons_of_pos hq, hrest], by rw [hflat]⟩
    · have hnil : m.filter p = [] := by
        rw [List.filter_eq_nil_iff]
        intro a ha hpa
        exact hq ((hR r m hr).any hm ▸ List.any_eq_true.2 ⟨a, ha, hpa⟩)
      rw [List.filter_cons_of_neg hq, hnil, List.nil_append]
      exact ih hls

end ObjLog.Lib
