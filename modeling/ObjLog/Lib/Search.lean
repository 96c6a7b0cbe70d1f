import Mathlib.Data.List.Basic
import Mathlib.Data.List.Chain
import Mathlib.Tactic.Linarith
/-!
# Binary search for the first true index

`search n f` is Go's `sort.Search`. When `f` is monotone it returns the first
index where `f` holds (`search_spec`). On a list whose elements fail `p` up to
some point and pass it from there on, the search splits the list like
`takeWhile` and `dropWhile` do (`drop_searchList`), and the element it stops at
is the first one that passes (`getElem?_searchList`).
-/

namespace ObjLog.Lib

/-- The loop of `sort.Search` on `[i, j)`; `fuel` bounds the number of turns. -/
def searchLoop (f : Nat → Bool) : Nat → Nat → Nat → Nat
  | 0, i, _ => i
  | fuel + 1, i, j =>
    if i < j then
      let h := (i + j) / 2
      if !f h then searchLoop f fuel (h + 1) j else searchLoop f fuel i h
    else i

/-- `sort.Search(n, f)`. -/
def search (n : Nat) (f : Nat → Bool) : Nat := searchLoop f n 0 n

section
variable (f : Nat → Bool) (n : Nat) (mono : ∀ a b, a ≤ b → b < n → f a = true → f b = true)
include f n mono

/-- Below `i` everything fails, from `j` on everything passes; the loop ends
where the two meet. -/
theorem searchLoop_spec
    (fuel i j : Nat) (hf : j - i ≤ fuel) (hij : i ≤ j) (hj : j ≤ n) (below : ∀ a, a < i → f a = false)
    (above : ∀ a, j ≤ a → a < n → f a = true) :
    let r := searchLoop f fuel i j
    r ≤ n ∧ (∀ a, a < r → f a = false) ∧ (∀ a, r ≤ a → a < n → f a = true) := by
  induction fuel generalizing i j with
  | zero =>
    have : i = j := by omega
    subst this
    exact ⟨hj, below, above⟩
  | succ fuel ih =>
    rw [searchLoop]
    split
    · rename_i hlt
      dsimp only
      split
      · rename_i hfh
        refine ih ((i + j) / 2 + 1) j (by omega) (by omega) hj (fun a ha => ?_) above
        by_contra hc
        have := mono a ((i + j) / 2) (by omega) (by omega) (by simpa using hc)
        simp [this] at hfh
      · rename_i hfh
        refine ih i ((i + j) / 2) (by omega) (by omega) (by omega) below (fun a ha han => ?_)
        exact mono _ a ha han (by simpa using hfh)
    · have : i = j := by omega
      subst this
      exact ⟨hj, below, above⟩

theorem search_spec :
    search n f ≤ n ∧ (∀ a, a < search n f → f a = false) ∧ (∀ a, search n f ≤ a → a < n → f a = true) :=
  searchLoop_spec f n mono n 0 n (by omega) (by omega) (by omega) (by omega) (by omega)

end

/-! ## On lists -/

variable {α : Type} {p : α → Bool} {l : List α}

/-- `sort.Search(len(l), func(i int) bool { return p(l[i]) })`. -/
def searchList (l : List α) (p : α → Bool) : Nat := search l.length (fun i => l[i]?.any p)

/-- The search looks at the elements of the list only. -/
theorem searchList_congr {q : α → Bool} (h : ∀ a ∈ l, p a = q a) : searchList l p = searchList l q := by
  refine congrArg (search l.length) (funext fun i => ?_)
  cases hi : l[i]? with
  | none => rfl
  | some a => exact h a (List.mem_of_getElem? hi)

/-- Once an element passes, every later one does. -/
def Upward (p : α → Bool) (l : List α) : Prop := l.Pairwise (fun a b => p a = true → p b = true)

theorem Upward.cons_iff {a : α} :
    Upward p (a :: l) ↔ (∀ b ∈ l, p a = true → p b = true) ∧ Upward p l := List.pairwise_cons

theorem Upward.mono (h : Upward p l) : ∀ a b, a ≤ b → b < l.length → (l[a]?.any p) = true → (l[b]?.any p) = true := by
  intro a b hab hb ha
  rw [List.getElem?_eq_getElem hb]
  rw [List.getElem?_eq_getElem (by omega)] at ha
  simp only [Option.any_some] at ha ⊢
  rcases Nat.lt_or_eq_of_le hab with hlt | rfl
  · exact (List.pairwise_iff_getElem.1 h) a b (by omega) hb hlt ha
  · exact ha

/-- The search skips exactly the elements that fail. -/
theorem searchList_eq (l : List α) (h : Upward p l) : searchList l p = (l.takeWhile (fun a => !p a)).length := by
  obtain ⟨hle, hbelow, habove⟩ := search_spec (fun i => l[i]?.any p) l.length h.mono
  change searchList l p ≤ _ at hle
  apply Nat.le_antisymm
  · -- everything before the stopping index fails, so `takeWhile` gets at least that far
    have hsplit := List.take_append_drop (searchList l p) l
    have hall : (l.take (searchList l p)).all (fun a => !p a) = true := by
      rw [List.all_eq_true]
      intro a ha
      obtain ⟨i, hi, rfl⟩ := List.mem_iff_getElem.1 ha
      rw [List.length_take] at hi
      have := hbelow i (by change i < searchList l p; omega)
      rw [List.getElem?_eq_getElem (by omega)] at this
      simpa using this
    rw [← hsplit, List.takeWhile_append_of_pos (by simpa using hall)]
    simp only [List.length_append, List.length_take]
    rw [hsplit]
    omega
  · by_contra hlt
    have hi : searchList l p < (l.takeWhile (fun a => !p a)).length := by omega
    have hlen := (List.takeWhile_sublist (l := l) (fun a => !p a)).length_le
    have hp := habove (searchList l p) (Nat.le_refl _) (by omega)
    rw [List.getElem?_eq_getElem (by omega)] at hp
    have hmem : (l.takeWhile (fun a => !p a))[searchList l p] ∈ l.takeWhile (fun a => !p a) := List.getElem_mem hi
    have hneg := List.all_eq_true.1 (List.all_takeWhile (l := l) (p := fun a => !p a)) _ hmem
    rw [(List.takeWhile_prefix (fun a => !p a)).getElem hi] at hneg
    simp only [Option.any_some] at hp
    simp [hp] at hneg

/-- What is left from the stopping index on. -/
theorem drop_searchList (l : List α) (h : Upward p l) : l.drop (searchList l p) = l.dropWhile (fun a => !p a) := by
  rw [searchList_eq l h]
  calc l.drop (l.takeWhile (fun a => !p a)).length
      = (l.takeWhile (fun a => !p a) ++ l.dropWhile (fun a => !p a)).drop (l.takeWhile (fun a => !p a)).length := by
        rw [List.takeWhile_append_dropWhile]
    _ = l.dropWhile (fun a => !p a) := List.drop_left

/-- On such a list dropping the failing start is keeping what passes. -/
theorem dropWhile_eq_filter (l : List α) (h : Upward p l) : l.dropWhile (fun a => !p a) = l.filter p := by
  induction l with
  | nil => rfl
  | cons a l ih =>
    obtain ⟨ha, hl⟩ := Upward.cons_iff.1 h
    by_cases hp : p a = true
    · rw [List.dropWhile_cons_of_neg (by simp [hp]), List.filter_cons_of_pos hp]
      rw [List.filter_eq_self.2 (fun b hb => ha b hb hp)]
    · rw [List.dropWhile_cons_of_pos (by simpa using hp), List.filter_cons_of_neg hp, ih hl]

theorem drop_searchList_filter (l : List α) (h : Upward p l) : l.drop (searchList l p) = l.filter p := by
  rw [drop_searchList l h, dropWhile_eq_filter l h]

/-- The element the search stops at is the first that passes. -/
theorem getElem?_searchList (l : List α) (h : Upward p l) : l[searchList l p]? = l.find? p := by
  rw [← List.head?_drop, drop_searchList_filter l h, List.head?_filter]

end ObjLog.Lib
