import Mathlib.Algebra.BigOperators.Intervals
import Mathlib.Algebra.Order.BigOperators.Group.Finset
import Mathlib.Algebra.BigOperators.Ring.Finset
/-!
# Mixed-radix counters

A counter has digits `digit i`, each below its `radix i`. Digit `i` was given `given i` units; it holds some of
them and passed on `given (i + 1)` carries worth `radix i` units each. A counter from which units may be lost
holds at most what is left; one that loses nothing holds exactly that.
-/

namespace ObjLog.Lib

/-- No digit holds more than it was given and has not carried. -/
structure Counter (radix digit given : Nat → Nat) : Prop where
  lt : ∀ i, digit i < radix i
  le : ∀ i, digit i + radix i * given (i + 1) ≤ given i

namespace Counter

variable {radix digit given : Nat → Nat} (h : Counter radix digit given)
include h

theorem given_le (i : Nat) : given i ≤ given 0 / ∏ j ∈ Finset.range i, radix j := by
  induction i with
  | zero => simp
  | succ i ih =>
    rw [Finset.prod_range_succ, ← Nat.div_div_eq_div_mul, Nat.le_div_iff_mul_le (Nat.zero_lt_of_lt (h.lt i)), Nat.mul_comm]
    exact Nat.le_trans (Nat.le_trans (Nat.le_add_left _ _) (h.le i)) ih

section
variable (hexact : ∀ i, given i ≤ digit i + radix i * given (i + 1))
include hexact

theorem given_eq (i : Nat) : given i = given 0 / ∏ j ∈ Finset.range i, radix j := by
  induction i with
  | zero => simp
  | succ i ih =>
    rw [Finset.prod_range_succ, ← Nat.div_div_eq_div_mul, ← ih, ← Nat.le_antisymm (h.le i) (hexact i),
      Nat.add_mul_div_left _ _ (Nat.zero_lt_of_lt (h.lt i)), Nat.div_eq_of_lt (h.lt i)]
    exact (Nat.zero_add _).symm

/-- The digits of what a counter that loses nothing was given. -/
theorem digit_eq (i : Nat) : digit i = given 0 / (∏ j ∈ Finset.range i, radix j) % radix i := by
  rw [← h.given_eq hexact, ← Nat.le_antisymm (h.le i) (hexact i), Nat.add_mul_mod_self_left, Nat.mod_eq_of_lt (h.lt i)]

end

/-- Above the lowest digit each carry took `base` others, so the lowest carries bound them all. -/
theorem sum_given_le {base : Nat} (hbase : ∀ i, radix (i + 1) = base) (m : Nat) :
    (∑ i ∈ Finset.range m, given (i + 1)) * (radix 0 * (base - 1)) ≤ given 0 * base := by
  set total := ∑ i ∈ Finset.range m, given (i + 1)
  have hcarried : base * ∑ i ∈ Finset.range m, given (i + 2) ≤ total := by
    rw [Finset.mul_sum]
    exact Finset.sum_le_sum fun i _ => hbase i ▸ Nat.le_trans (Nat.le_add_left _ _) (h.le (i + 1))
  have htotal : total ≤ (∑ i ∈ Finset.range m, given (i + 2)) + given 1 := by
    rw [← Finset.sum_range_succ' fun i => given (i + 1), Finset.sum_range_succ]
    exact Nat.le_add_right _ _
  have hall : total * (base - 1) ≤ base * given 1 := by
    have hmul := Nat.mul_le_mul_left base htotal
    rw [Nat.mul_add] at hmul
    rw [Nat.mul_sub, Nat.mul_one, Nat.mul_comm]
    omega
  calc total * (radix 0 * (base - 1)) = radix 0 * (total * (base - 1)) := Nat.mul_left_comm _ _ _
    _ ≤ radix 0 * (base * given 1) := Nat.mul_le_mul_left _ hall
    _ = radix 0 * given 1 * base := by rw [Nat.mul_comm base, Nat.mul_assoc]
    _ ≤ given 0 * base := Nat.mul_le_mul_right _ (Nat.le_trans (Nat.le_add_left _ _) (h.le 0))

end Counter

end ObjLog.Lib
