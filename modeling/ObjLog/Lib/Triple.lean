import ObjLog.Lib.Assertion
/-!
# Pre- and postconditions

For a program with a state of its own whose answers are known only to be allowed:
`Triple allow P Q F x` says that `x`, started where `P` holds, returns only where `Q`
holds and fails only where `F` does, whatever allowed answers it gets. It is a `Spec`
in a world of which nothing is known.
-/

namespace ObjLog.Lib

variable {E : Type} {A : E → Type} {α β ε σ : Type}

/-- Some allowed answers lead the program to this result. -/
inductive Prog.ReturnsBy (allow : (e : E) → A e → Prop) : Prog E A α → α → Prop
  | ret (a : α) : ReturnsBy allow (.ret a) a
  | op {e : E} {k : A e → Prog E A α} (answer : A e) {a : α} (hallow : allow e answer) (h : ReturnsBy allow (k answer) a) :
      ReturnsBy allow (.op e k) a

theorem Prog.returnsBy_run {allow : (e : E) → A e → Prop} {h : (e : E) → A e} (hallow : ∀ e, allow e (h e))
    (p : Prog E A α) : p.ReturnsBy allow (p.run h) := by
  induction p with
  | ret a => exact .ret a
  | op e k ih => exact .op (h e) (hallow e) (ih (h e))

/-- Every operation may be answered by what is allowed. -/
def Env.allowing (allow : (e : E) → A e → Prop) : Env Unit E A where
  rely _ _ := True
  act _ e a _ := allow e a
  guar _ _ := True
  refl _ := trivial
  trans _ _ := trivial

variable {allow : (e : E) → A e → Prop}

theorem Env.wp_returnsBy {Q : α → Unit → Prop} {p : Prog E A α} {a : α} (h : (Env.allowing allow).wp Q p ())
    (hp : p.ReturnsBy allow a) : Q a () := by
  induction hp with
  | ret a => exact h () trivial
  | op answer hallow _ ih => exact ih (h () trivial answer () hallow).2

variable (allow) in
/-- Conditions on the program's own state only. -/
def Triple (P : σ → Prop) (Q : α → σ → Prop) (F : σ → Prop) (x : ExceptT ε (StateT σ (Prog E A)) α) : Prop :=
  Spec (.own (Env.allowing allow) P) (fun a => .own _ (Q a)) (fun _ => .own _ F) x

namespace Triple

variable {P P' : σ → Prop} {Q Q' : α → σ → Prop} {R : β → σ → Prop} {F F' : σ → Prop}
  {x : Stateful A ε σ α}

theorem mono (h : Triple allow P Q F x) (hP : ∀ s, P' s → P s) (hQ : ∀ a s, Q a s → Q' a s) (hF : ∀ s, F s → F' s) :
    Triple allow P' Q' F' x :=
  Spec.mono h (fun s _ => hP s) (fun a s _ => hQ a s) fun _ s _ => hF s

theorem pre (h : Triple allow P Q F x) (hP : ∀ s, P' s → P s) : Triple allow P' Q F x :=
  h.mono hP (fun _ _ => id) fun _ => id

protected theorem pure {a : α} (h : ∀ s, P s → Q a s) : Triple allow P Q F (pure a : Stateful A ε σ α) :=
  Spec.pure fun s _ => h s

protected theorem throw {e : ε} (h : ∀ s, P s → F s) : Triple allow P Q F (throw e : Stateful A ε σ α) :=
  Spec.throw fun s _ => h s

protected theorem bind {f : α → Stateful A ε σ β} (h : Triple allow P Q F x)
    (hf : ∀ a, Triple allow (Q a) R F (f a)) : Triple allow P R F (x >>= f) :=
  Spec.bind h hf

/-- What is read is the state the rest starts in. -/
theorem get {f : σ → Stateful A ε σ β} (h : ∀ s, P s → Triple allow (· = s) R F (f s)) :
    Triple allow P R F ((getThe σ : Stateful A ε σ σ) >>= f) :=
  Spec.get fun s => ⟨fun t w ht => Spec.wpS (h s (ht.2 ▸ ht.1)) t w ht.2⟩

protected theorem modify {g : σ → σ} {Q : Unit → σ → Prop} (h : ∀ s, P s → Q () (g s)) :
    Triple allow P Q F (modify g : Stateful A ε σ Unit) :=
  Spec.modify fun s _ => h s

theorem except {y : Except ε α} (hQ : ∀ a, y = .ok a → ∀ s, P s → Q a s) (hF : ∀ s, P s → F s) :
    Triple allow P Q F (ExceptT.mk (pure y) : Stateful A ε σ α) :=
  Spec.except (fun a ha s _ => hQ a ha s) fun _ _ s _ => hF s

theorem perform {e : E} {Q : A e → σ → Prop} (h : ∀ a, allow e a → ∀ s, P s → Q a s) :
    Triple allow P Q F (ExceptT.mk (StateT.lift (Except.ok <$> Prog.perform e)) : Stateful A ε σ (A e)) :=
  Spec.perform fun s _ hs a _ ha => ⟨trivial, h a ha s hs⟩

/-- The error as a value. -/
theorem attempt {Q : Except ε α → σ → Prop} (h : Triple allow P (fun a => Q (.ok a)) (fun s => ∀ e, Q (.error e) s) x) :
    Triple allow P Q F (ExceptT.lift x.run : Stateful A ε σ (Except ε α)) :=
  Spec.attempt (Spec.mono h (fun _ _ => id) (fun _ _ _ => id) fun e _ _ hs => hs e)

theorem ite {c : Prop} [Decidable c] {y : Stateful A ε σ α} (hx : c → Triple allow P Q F x)
    (hy : ¬c → Triple allow P Q F y) : Triple allow P Q F (if c then x else y) :=
  Spec.ite hx hy

/-- It is enough to start from each state of which the condition is known. -/
theorem each (h : ∀ s, P s → Triple allow (· = s) Q F x) : Triple allow P Q F x :=
  ⟨fun s w hs => Spec.wpS (h s hs) s w rfl⟩

/-- What every allowed run ends with. -/
theorem returnsBy (h : Triple allow P Q F x) {s t : σ} {out : Except ε α} (hs : P s)
    (hx : (x.run.run s).ReturnsBy allow (out, t)) : (∀ a, out = .ok a → Q a t) ∧ (∀ e, out = .error e → F t) := by
  have hend := Env.wp_returnsBy (Spec.wpS h s () hs) hx
  cases out with
  | ok a => exact ⟨fun b hb => Except.ok.inj hb ▸ hend, fun _ he => nomatch he⟩
  | error e => exact ⟨fun _ hb => (nomatch hb), fun _ _ => hend⟩

end Triple

/-- Kept by success and by failure. -/
abbrev Keeps (allow : (e : E) → A e → Prop) (I : σ → Prop) (x : ExceptT ε (StateT σ (Prog E A)) α) : Prop :=
  Triple allow I (fun _ => I) I x

end ObjLog.Lib
