import ObjLog.Lib.Rely
/-!
# Assertions that the others keep

A program with a state of its own shares a world with others. An `Assertion` is a
condition on both that the others' steps keep, so it can be carried from one operation
of the program to the next. `Spec P Q F x` says that `x`, started where `P` holds,
keeps the guarantee, returns only where `Q` holds and fails only where `F` does.
-/

namespace ObjLog.Lib

variable {W E : Type} {A : E → Type} {α β ε σ : Type}

structure Assertion (env : Env W E A) (σ : Type) where
  holds : σ → W → Prop
  stable : ∀ {s : σ} {w w' : W}, env.rely w w' → holds s w → holds s w'

namespace Assertion

variable {env : Env W E A}

/-- Of the program's own state only. -/
def own (env : Env W E A) (q : σ → Prop) : Assertion env σ := ⟨fun s _ => q s, fun _ h => h⟩

/-- And this of the program's own state. -/
def also (P : Assertion env σ) (q : σ → Prop) : Assertion env σ :=
  ⟨fun s w => P.holds s w ∧ q s, fun hr h => ⟨P.stable hr h.1, h.2⟩⟩

end Assertion

variable {env : Env W E A}

structure Spec (P : Assertion env σ) (Q : α → Assertion env σ) (F : ε → Assertion env σ)
    (x : ExceptT ε (StateT σ (Prog E A)) α) : Prop where
  wpS : ∀ s w, P.holds s w → env.wpS (fun a => (Q a).holds) (fun e => (F e).holds) x s w

namespace Spec

variable {P P' : Assertion env σ} {Q Q' : α → Assertion env σ} {R : β → Assertion env σ} {F F' : ε → Assertion env σ}
  {x : Stateful A ε σ α}

theorem mono (h : Spec P Q F x) (hP : ∀ s w, P'.holds s w → P.holds s w) (hQ : ∀ a s w, (Q a).holds s w → (Q' a).holds s w)
    (hF : ∀ e s w, (F e).holds s w → (F' e).holds s w) : Spec P' Q' F' x :=
  ⟨fun s w hs => Env.wpS_mono hQ hF (h.wpS s w (hP s w hs))⟩

protected theorem pure {a : α} (h : ∀ s w, P.holds s w → (Q a).holds s w) : Spec P Q F (pure a : Stateful A ε σ α) :=
  ⟨fun s _ hs => Env.wpS_pure.2 fun w' hr => h s w' (P.stable hr hs)⟩

protected theorem throw {e : ε} (h : ∀ s w, P.holds s w → (F e).holds s w) : Spec P Q F (throw e : Stateful A ε σ α) :=
  ⟨fun s _ hs => Env.wpS_throw.2 fun w' hr => h s w' (P.stable hr hs)⟩

protected theorem bind {f : α → Stateful A ε σ β} (h : Spec P Q F x) (hf : ∀ a, Spec (Q a) R F (f a)) :
    Spec P R F (x >>= f) :=
  ⟨fun s w hs => Env.wpS_bind.2 (Env.wpS_mono (fun a t u ht => (hf a).wpS t u ht) (fun _ _ _ ht => ht) (h.wpS s w hs))⟩

/-- What is read is the state the rest starts in. -/
theorem get {f : σ → Stateful A ε σ β} (h : ∀ s, Spec (P.also (· = s)) R F (f s)) :
    Spec P R F ((getThe σ : Stateful A ε σ σ) >>= f) :=
  ⟨fun s _ hs => Env.wpS_bind.2 (Env.wpS_get.2 fun w' hr => (h s).wpS s w' ⟨P.stable hr hs, rfl⟩)⟩

protected theorem modify {g : σ → σ} {Q : Unit → Assertion env σ} (h : ∀ s w, P.holds s w → (Q ()).holds (g s) w) :
    Spec P Q F (modify g : Stateful A ε σ Unit) :=
  ⟨fun s _ hs => Env.wpS_modify.2 fun w' hr => h s w' (P.stable hr hs)⟩

theorem except {y : Except ε α} (hQ : ∀ a, y = .ok a → ∀ s w, P.holds s w → (Q a).holds s w)
    (hF : ∀ e, y = .error e → ∀ s w, P.holds s w → (F e).holds s w) :
    Spec P Q F (ExceptT.mk (pure y) : Stateful A ε σ α) :=
  ⟨fun s _ hs => Env.wpS_except (fun a ha w' hr => hQ a ha s w' (P.stable hr hs)) fun e he w' hr => hF e he s w' (P.stable hr hs)⟩

theorem perform {e : E} {Q : A e → Assertion env σ}
    (h : ∀ s w, P.holds s w → ∀ a w', env.act w e a w' → env.guar w w' ∧ (Q a).holds s w') :
    Spec P Q F (ExceptT.mk (StateT.lift (Except.ok <$> Prog.perform e)) : Stateful A ε σ (A e)) :=
  ⟨fun s _ hs w' hr a w'' ha =>
    ⟨(h s w' (P.stable hr hs) a w'' ha).1, fun _ hr' => (Q a).stable hr' (h s w' (P.stable hr hs) a w'' ha).2⟩⟩

/-- The error as a value. -/
theorem attempt {Q : Except ε α → Assertion env σ} {F' : ε → Assertion env σ}
    (h : Spec P (fun a => Q (.ok a)) (fun e => Q (.error e)) x) :
    Spec P Q F' (ExceptT.lift x.run : Stateful A ε σ (Except ε α)) := by
  refine ⟨fun s w hs => ?_⟩
  change env.wp _ (x.run.run s >>= fun r => pure (Except.ok r.1, r.2)) w
  rw [Env.wp_bind]
  refine Env.wp_mono ?_ (h.wpS s w hs)
  rintro ⟨e | a, t⟩ u ht
  · exact fun _ hr => (Q (.error e)).stable hr ht
  · exact fun _ hr => (Q (.ok a)).stable hr ht

theorem ite {c : Prop} [Decidable c] {y : Stateful A ε σ α} (hx : c → Spec P Q F x)
    (hy : ¬c → Spec P Q F y) : Spec P Q F (if c then x else y) := by
  by_cases h : c
  · rw [if_pos h]; exact hx h
  · rw [if_neg h]; exact hy h

end Spec

end ObjLog.Lib
