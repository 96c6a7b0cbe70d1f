import ObjLog.Lib.Groups
/-!
# Lists of intervals that tile a range

Each element `x` covers `lo x ..= hi x`. `Tiles lo hi a b l` says that the
elements of `l`, left to right, cover `[a, b)` with no gap and no overlap.
-/

namespace ObjLog.Lib

variable {α : Type} (lo hi : α → Nat)

def Tiles : Nat → Nat → List α → Prop
  | a, b, [] => a = b
  | a, b, x :: xs => lo x = a ∧ lo x ≤ hi x ∧ Tiles (hi x + 1) b xs

namespace Tiles

variable {lo hi} {a b c k : Nat} {l xs ys : List α} {x : α}

@[simp] theorem nil_iff : Tiles lo hi a b [] ↔ a = b := Iff.rfl

@[simp] theorem cons_iff : Tiles lo hi a b (x :: xs) ↔ lo x = a ∧ lo x ≤ hi x ∧ Tiles lo hi (hi x + 1) b xs := Iff.rfl

theorem append_iff : Tiles lo hi a c (xs ++ ys) ↔ ∃ b, Tiles lo hi a b xs ∧ Tiles lo hi b c ys := by
  induction xs generalizing a with
  | nil => simp
  | cons x xs ih =>
    simp only [List.cons_append, cons_iff, ih]
    constructor
    · rintro ⟨h1, h2, b, h3, h4⟩
      exact ⟨b, ⟨h1, h2, h3⟩, h4⟩
    · rintro ⟨b, ⟨h1, h2, h3⟩, h4⟩
      exact ⟨h1, h2, b, h3, h4⟩

theorem of_map {β : Type} {f : β → α} {l : List β} (h : Tiles lo hi a b (l.map f)) : Tiles (lo ∘ f) (hi ∘ f) a b l := by
  induction l generalizing a with
  | nil => exact h
  | cons x xs ih => exact ⟨h.1, h.2.1, ih h.2.2⟩

section
variable (h : Tiles lo hi a b l)
include h

theorem le : a ≤ b := by
  induction l generalizing a with
  | nil => exact Nat.le_of_eq h
  | cons x xs ih =>
    have := ih h.2.2
    have := h.1
    have := h.2.1
    omega

theorem mem_bounds (hx : x ∈ l) : a ≤ lo x ∧ lo x ≤ hi x ∧ hi x < b := by
  induction l generalizing a with
  | nil => simp at hx
  | cons y ys ih =>
    obtain ⟨h1, h2, h3⟩ := h
    rcases List.mem_cons.1 hx with rfl | hx
    · exact ⟨Nat.le_of_eq h1.symm, h2, h3.le⟩
    · have := ih h3 hx
      omega

/-- Weights that are at most what each element covers add up to at most the range. -/
theorem sum_le {w : α → Nat} (hw : ∀ x ∈ l, w x ≤ hi x - lo x + 1) : a + (l.map w).sum ≤ b := by
  induction l generalizing a with
  | nil => exact Nat.le_of_eq h
  | cons x xs ih =>
    obtain ⟨hlo, hle, hrest⟩ := h
    have hx := hw x List.mem_cons_self
    have := ih hrest fun y hy => hw y (List.mem_cons_of_mem _ hy)
    rw [List.map_cons, List.sum_cons]
    omega

/-- Every element covers something. -/
theorem length_le : a + l.length ≤ b := by
  have := h.sum_le (w := fun _ => 1) fun _ _ => by omega
  simpa using this

/-- The elements determine where the range ends. -/
theorem end_unique {b' : Nat} (h' : Tiles lo hi a b' l) : b = b' := by
  induction l generalizing a with
  | nil => exact h.symm.trans h'
  | cons x xs ih => exact ih h.2.2 h'.2.2

/-- The elements determine where the range begins. -/
theorem start_unique {a' : Nat} (h' : Tiles lo hi a' b l) : a = a' := by
  cases l with
  | nil => exact Eq.trans h (Eq.symm h')
  | cons x xs => exact h.1.symm.trans h'.1

end

variable (h : Tiles lo hi a b l)
include h

/-- Nothing tiles an empty range. -/
theorem eq_nil (hab : b ≤ a) : l = [] := by
  rw [List.eq_nil_iff_forall_not_mem]
  intro x hx
  have := mem_bounds h hx
  omega

/-- The last element ends where the range does. -/
theorem getLast_eq (hx : x ∈ l.getLast?) : hi x + 1 = b := by
  obtain ⟨ys, rfl⟩ := List.getLast?_eq_some_iff.1 hx
  obtain ⟨_, _, h⟩ := append_iff.1 h
  exact h.2.2

/-- Later elements lie to the right. -/
theorem pairwise : l.Pairwise fun x y => hi x < lo y := by
  induction l generalizing a with
  | nil => exact List.Pairwise.nil
  | cons x xs ih => exact List.pairwise_cons.2 ⟨fun y hy => (mem_bounds h.2.2 hy).1, ih h.2.2⟩

/-- The elements ending at `k` or later are a tail. -/
theorem upward (k : Nat) : Upward (fun x => decide (k ≤ hi x)) l := by
  refine h.pairwise.imp_of_mem fun {x y} _ hy hxy => ?_
  have := (mem_bounds h hy).2.1
  simp only [decide_eq_true_eq]
  omega

/-- The elements that end before `k` go; the rest tiles from the first one that stays. -/
theorem filter (k : Nat) : ∃ m, Tiles lo hi m b (l.filter fun x => decide (k ≤ hi x)) := by
  induction l generalizing a with
  | nil => exact ⟨b, rfl⟩
  | cons x xs ih =>
    by_cases hk : k ≤ hi x
    · have hall : ∀ y ∈ xs, k ≤ hi y := fun y hy => by have := mem_bounds h.2.2 hy; omega
      rw [List.filter_cons_of_pos (by simpa using hk), List.filter_eq_self.2 (by simpa using hall)]
      exact ⟨a, h⟩
    · rw [List.filter_cons_of_neg (by simpa using hk)]
      exact ih h.2.2

/-- The first element ending at `k` or later is the one that contains `k`. -/
theorem find_contains (ha : a ≤ k) (hb : k < b) :
    ∃ x ∈ l, l.find? (fun x => decide (k ≤ hi x)) = some x ∧ lo x ≤ k ∧ k ≤ hi x := by
  induction l generalizing a with
  | nil => have := nil_iff.1 h; omega
  | cons x xs ih =>
    by_cases hk : k ≤ hi x
    · exact ⟨x, List.mem_cons_self, by simp [hk], h.1 ▸ ha, hk⟩
    · obtain ⟨y, hy, hf, hlo, hhi⟩ := ih h.2.2 (by omega)
      exact ⟨y, List.mem_cons_of_mem _ hy, by simp [hk, hf], hlo, hhi⟩

/-- Only one element contains `k`. -/
theorem unique {y : α} (hx : x ∈ l) (hy : y ∈ l) (hxk : lo x ≤ k ∧ k ≤ hi x) (hyk : lo y ≤ k ∧ k ≤ hi y) : x = y := by
  induction l generalizing a with
  | nil => simp at hx
  | cons z zs ih =>
    rcases List.mem_cons.1 hx with rfl | hx' <;> rcases List.mem_cons.1 hy with rfl | hy'
    · rfl
    · have := mem_bounds h.2.2 hy'; omega
    · have := mem_bounds h.2.2 hx'; omega
    · exact ih h.2.2 hx' hy'

/-- An element that contains `k` is the only one, by its place. -/
theorem index_unique {i j : Nat} {y : α} (hx : l[i]? = some x) (hy : l[j]? = some y)
    (hxk : lo x ≤ k ∧ k ≤ hi x) (hyk : lo y ≤ k ∧ k ≤ hi y) : i = j := by
  have hpair := List.pairwise_iff_getElem.1 h.pairwise
  obtain ⟨hilt, rfl⟩ := List.getElem?_eq_some_iff.1 hx
  obtain ⟨hjlt, rfl⟩ := List.getElem?_eq_some_iff.1 hy
  rcases Nat.lt_trichotomy i j with hlt | heq | hlt
  · have := hpair i j hilt hjlt hlt
    omega
  · exact heq
  · have := hpair j i hjlt hilt hlt
    omega

/-- The search for the first element ending at `k` or later stops at the one that contains `k`. -/
theorem searchList_contains (ha : a ≤ k) (hb : k < b) :
    ∃ x, l[searchList l fun x => decide (k ≤ hi x)]? = some x ∧ lo x ≤ k ∧ k ≤ hi x := by
  obtain ⟨x, -, hfind, hlo, hhi⟩ := h.find_contains ha hb
  exact ⟨x, by rw [getElem?_searchList l (h.upward k), hfind], hlo, hhi⟩

/-- What ends at the start of the `n`-th element or later is that element and all after it. -/
theorem filter_from_nth {n : Nat} (hx : l[n]? = some x) : (l.filter fun y => decide (lo x ≤ hi y)) = l.drop n := by
  obtain ⟨hn, rfl⟩ := List.getElem?_eq_some_iff.1 hx
  have hsplit := List.take_append_drop n l
  have hbounds := mem_bounds h (List.getElem_mem hn)
  have hpair := h.pairwise
  rw [List.drop_eq_getElem_cons hn] at hsplit
  rw [← hsplit] at hpair
  obtain ⟨_, hafter, hcross⟩ := List.pairwise_append.1 hpair
  have hbefore : (l.take n).filter (fun y => decide (lo l[n] ≤ hi y)) = [] := by
    refine List.filter_eq_nil_iff.2 fun y hy => ?_
    have := hcross y hy _ List.mem_cons_self
    simp only [decide_eq_true_eq]
    omega
  have hrest : (l.drop n).filter (fun y => decide (lo l[n] ≤ hi y)) = l.drop n := by
    refine List.filter_eq_self.2 fun y hy => ?_
    have hyb := mem_bounds h (List.mem_of_mem_drop hy)
    rw [List.drop_eq_getElem_cons hn] at hy
    simp only [decide_eq_true_eq]
    rcases List.mem_cons.1 hy with rfl | hy
    · exact hbounds.2.1
    · have := (List.pairwise_cons.1 hafter).1 y hy
      omega
  calc (l.filter fun y => decide (lo l[n] ≤ hi y))
      = ((l.take n ++ l.drop n).filter fun y => decide (lo l[n] ≤ hi y)) := by rw [List.take_append_drop]
    _ = l.drop n := by rw [List.filter_append, hbefore, hrest, List.nil_append]

/-- A page that was cut off at `x` goes on at the start of `x`, further right. -/
theorem resume {n : Nat} (hn : 0 < n) (hx : (l.filter fun y => decide (k ≤ hi y))[n]? = some x) :
    k < lo x ∧ (l.filter fun y => decide (lo x ≤ hi y)) = (l.filter fun y => decide (k ≤ hi y)).drop n := by
  have hdrop := drop_searchList_filter l (h.upward k)
  obtain ⟨m, hm⟩ := h.filter k
  constructor
  · -- the first element of the page ends at `k` or later and lies before `x`
    obtain ⟨hlen, hxe⟩ := List.getElem?_eq_some_iff.1 hx
    have h0 : 0 < (l.filter fun y => decide (k ≤ hi y)).length := by omega
    have hlt := (List.pairwise_iff_getElem.1 hm.pairwise) 0 n h0 hlen hn
    have hfirst := (List.mem_filter.1 (List.getElem_mem h0)).2
    rw [hxe] at hlt
    simp only [decide_eq_true_eq] at hfirst
    omega
  · rw [← hdrop, List.getElem?_drop] at hx
    rw [h.filter_from_nth hx, ← hdrop, List.drop_drop]

/-- Tilings of the elements of a tiling make one tiling. -/
theorem flatten {β : Type} {lo' hi' : β → Nat} {ls : List (List β)}
    (hls : List.Forall₂ (fun x m => Tiles lo' hi' (lo x) (hi x + 1) m) l ls) : Tiles lo' hi' a b ls.flatten := by
  induction hls generalizing a with
  | nil => exact h
  | cons hm _ ih =>
    rw [List.flatten_cons]
    exact append_iff.2 ⟨_, h.1 ▸ hm, ih h.2.2⟩

/-- The same when only a first part of the elements is tiled and the rest left empty. -/
theorem flatten_while {β : Type} {lo' hi' : β → Nat} {p : α → Prop} {ls : List (List β)}
    (hp : l.Pairwise fun x y => p y → p x)
    (hls : List.Forall₂ (fun x m => (p x ∧ Tiles lo' hi' (lo x) (hi x + 1) m) ∨ (¬ p x ∧ m = [])) l ls) :
    ∃ c, Tiles lo' hi' a c ls.flatten := by
  induction hls generalizing a with
  | nil => exact ⟨a, rfl⟩
  | @cons x m xs ms hm hms ih =>
    obtain ⟨hcross, hxs⟩ := List.pairwise_cons.1 hp
    rw [List.flatten_cons]
    rcases hm with ⟨_, hm⟩ | ⟨hx, rfl⟩
    · obtain ⟨c, hc⟩ := ih h.2.2 hxs
      exact ⟨c, append_iff.2 ⟨_, h.1 ▸ hm, hc⟩⟩
    · -- after the first element without `p` there is none with it
      have hnil : ms.flatten = [] := by
        refine List.flatten_eq_nil_iff.2 fun m hm => ?_
        obtain ⟨y, hy, hym⟩ := forall₂_mem_left hms.flip hm
        exact hym.elim (fun hpy => absurd (hcross y hy hpy.1) hx) (·.2)
      exact ⟨a, by rw [hnil]; rfl⟩

end Tiles

/-! ## Pieces laid end to end -/

section Spans
variable {β : Type} (base : β → Nat) (parts : β → List α)

/-- Each piece begins where the one before it ends, and the elements of the pieces tile `[a, b)`. -/
def Spans : Nat → Nat → List β → Prop
  | a, b, [] => a = b
  | a, b, x :: xs => base x = a ∧ ∃ m, Tiles lo hi a m (parts x) ∧ Spans m b xs

namespace Spans

variable {lo hi base parts} {a b c : Nat} {x : β} {xs ys : List β}

@[simp] theorem nil_iff : Spans lo hi base parts a b [] ↔ a = b := Iff.rfl

@[simp] theorem cons_iff : Spans lo hi base parts a b (x :: xs) ↔
    base x = a ∧ ∃ m, Tiles lo hi a m (parts x) ∧ Spans lo hi base parts m b xs := Iff.rfl

theorem append_iff : Spans lo hi base parts a c (xs ++ ys) ↔
    ∃ b, Spans lo hi base parts a b xs ∧ Spans lo hi base parts b c ys := by
  induction xs generalizing a with
  | nil => simp
  | cons x xs ih =>
    simp only [List.cons_append, cons_iff, ih]
    constructor
    · rintro ⟨h1, m, h2, b, h3, h4⟩
      exact ⟨b, ⟨h1, m, h2, h3⟩, h4⟩
    · rintro ⟨b, ⟨h1, m, h2, h3⟩, h4⟩
      exact ⟨h1, m, h2, b, h3, h4⟩

theorem singleton_iff : Spans lo hi base parts a b [x] ↔ base x = a ∧ Tiles lo hi a b (parts x) := by
  simp

/-- The elements of the pieces, taken together. -/
theorem tiles (h : Spans lo hi base parts a b xs) : Tiles lo hi a b (xs.flatMap parts) := by
  induction xs generalizing a with
  | nil => exact h
  | cons x xs ih =>
    obtain ⟨_, m, htiles, hrest⟩ := h
    exact Tiles.append_iff.2 ⟨m, htiles, ih hrest⟩

end Spans

end Spans

end ObjLog.Lib
