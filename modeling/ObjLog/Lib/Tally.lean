import Mathlib.Data.Finset.Card
/-!
# Counters that agree with what they count

`Tally n P`: exactly `n` numbers satisfy `P`. A counter kept next to the things it counts is
related to them by this, and moves with them one at a time.
-/

namespace ObjLog.Lib

def Tally (n : Int) (P : Nat → Prop) : Prop := ∃ J : Finset Nat, (∀ i, i ∈ J ↔ P i) ∧ n = J.card

namespace Tally

variable {n : Int} {P Q : Nat → Prop} {i : Nat}

theorem none (h : ∀ i, ¬P i) : Tally 0 P := ⟨∅, by simpa using h, rfl⟩

theorem congr (h : Tally n P) (hQ : ∀ i, Q i ↔ P i) : Tally n Q := by
  obtain ⟨J, hJ, rfl⟩ := h
  exact ⟨J, fun i => (hJ i).trans (hQ i).symm, rfl⟩

/-- One more. -/
theorem add (h : Tally n P) (hi : ¬P i) (hQ : ∀ j, Q j ↔ P j ∨ j = i) : Tally (n + 1) Q := by
  obtain ⟨J, hJ, rfl⟩ := h
  refine ⟨insert i J, fun j => ?_, ?_⟩
  · rw [Finset.mem_insert, hJ, hQ, or_comm]
  · rw [Finset.card_insert_of_notMem fun hm => hi ((hJ i).1 hm), Int.natCast_add, Int.natCast_one]

/-- One less. -/
theorem remove (h : Tally n P) (hi : P i) (hQ : ∀ j, Q j ↔ P j ∧ j ≠ i) : Tally (n - 1) Q := by
  obtain ⟨J, hJ, rfl⟩ := h
  have hcard := Finset.card_erase_add_one ((hJ i).2 hi)
  refine ⟨J.erase i, fun j => ?_, by omega⟩
  rw [Finset.mem_erase, hJ, hQ, and_comm]

theorem pos (h : Tally n P) (hi : P i) : 0 < n := by
  obtain ⟨J, hJ, rfl⟩ := h
  exact_mod_cast Finset.card_pos.2 ⟨i, (hJ i).2 hi⟩

end Tally

end ObjLog.Lib
