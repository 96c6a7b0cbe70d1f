import Mathlib.Order.Monotone.Basic
/-!
# What happens in the end

A measure that no step of a run raises cannot go down for ever: when some later step
lowers it as long as the goal is not met, the goal is met.
-/

namespace ObjLog.Lib

theorem eventually_of_lowered {measure : Nat → Nat} {goal : Nat → Prop} (hkeeps : ∀ n, measure (n + 1) ≤ measure n)
    (hlowers : ∀ n, (∀ m, n ≤ m → ¬goal m) → ∃ m, n ≤ m ∧ measure (m + 1) < measure m) : ∃ n, goal n := by
  have hle : ∀ n m, n ≤ m → measure m ≤ measure n := fun n m h => antitone_nat_of_succ_le hkeeps h
  by_contra hnever
  -- from every point on the measure still goes down
  have hbelow : ∀ bound, ∃ n, measure n + bound ≤ measure 0 := by
    intro bound
    induction bound with
    | zero => exact ⟨0, Nat.le_refl _⟩
    | succ bound ih =>
      obtain ⟨n, hn⟩ := ih
      obtain ⟨m, hm, hlt⟩ := hlowers n fun m _ hgoal => hnever ⟨m, hgoal⟩
      have := hle n m hm
      exact ⟨m + 1, by omega⟩
  obtain ⟨n, hn⟩ := hbelow (measure 0 + 1)
  omega

end ObjLog.Lib
