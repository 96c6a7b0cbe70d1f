import Mathlib.Order.Defs.PartialOrder
import Mathlib.Logic.Basic
/-!
# Programs with effects

`Prog E A α` is a program that performs operations `e : E`, each answered by a
value of `A e`, and returns an `α`. The same program is run against a fixed
handler (`Prog.run`) or step by step among other programs (`Lib.Rely`).
-/

namespace ObjLog.Lib

inductive Prog (E : Type) (A : E → Type) (α : Type) : Type
  | ret (a : α)
  | op (e : E) (k : A e → Prog E A α)

/-- Programs with a state of their own that may fail. -/
abbrev Stateful {E : Type} (A : E → Type) (ε σ : Type) := ExceptT ε (StateT σ (Prog E A))

namespace Prog

variable {E : Type} {A : E → Type} {α β γ : Type}

def bind : Prog E A α → (α → Prog E A β) → Prog E A β
  | .ret a, f => f a
  | .op e k, f => .op e (fun a => (k a).bind f)

instance : Monad (Prog E A) where
  pure := .ret
  bind := bind

/-- Perform one operation and return its answer. -/
def perform (e : E) : Prog E A (A e) := .op e .ret

theorem bind_ret (p : Prog E A α) : p.bind .ret = p := by
  induction p with
  | ret a => rfl
  | op e k ih => simp [bind, ih]

theorem bind_assoc (p : Prog E A α) (f : α → Prog E A β) (g : β → Prog E A γ) :
    (p.bind f).bind g = p.bind (fun a => (f a).bind g) := by
  induction p with
  | ret a => rfl
  | op e k ih => simp [bind, ih]

@[simp] theorem pure_def (a : α) : (pure a : Prog E A α) = .ret a := rfl

@[simp] theorem op_bind (e : E) (k : A e → Prog E A α) (f : α → Prog E A β) :
    (Prog.op e k >>= f) = .op e (fun a => k a >>= f) := rfl

instance : LawfulMonad (Prog E A) :=
  LawfulMonad.mk' _ (fun x => bind_ret x) (fun _ _ => rfl) (fun x f g => bind_assoc x f g)

/-! ## Running against a handler -/

/-- The result when operation `e` is always answered by `h e`. -/
def run (h : (e : E) → A e) : Prog E A α → α
  | .ret a => a
  | .op e k => run h (k (h e))

@[simp] theorem run_ret (h : (e : E) → A e) (a : α) : run h (.ret a) = a := rfl

@[simp] theorem run_op (h : (e : E) → A e) (e : E) (k : A e → Prog E A α) : run h (.op e k) = run h (k (h e)) := rfl

@[simp] theorem run_bind (h : (e : E) → A e) (p : Prog E A α) (f : α → Prog E A β) :
    run h (p >>= f) = run h (f (run h p)) := by
  induction p with
  | ret a => rfl
  | op e k ih => exact ih (h e)

end Prog

end ObjLog.Lib
