import ObjLog.Lib.Prog
/-!
# Programs among other programs

A program shares a world with others. Between any two of its operations the
others may move the world by `rely` steps; each of its own operations moves it
by `act` and must be a `guar` step. `wp Q p w` says that `p`, started in `w`,
keeps the guarantee at each operation and returns only where `Q` holds,
whatever the others do meanwhile.

`wp` of a program that has returned is kept by `rely` steps, so it is what a
scheduler may carry along for each of the programs it interleaves:
`wp_step` for the program that moves, `wp_rely` for those that wait.
-/

namespace ObjLog.Lib

/-- What surrounds a program that performs operations `E` in a world `W`. -/
structure Env (W E : Type) (A : E → Type) where
  rely : W → W → Prop
  act : W → (e : E) → A e → W → Prop
  guar : W → W → Prop
  refl : ∀ w, rely w w
  trans : ∀ {u v w}, rely u v → rely v w → rely u w

namespace Env

variable {W E : Type} {A : E → Type} {α β : Type} (env : Env W E A) {a : α}

def wp (Q : α → W → Prop) : Prog E A α → W → Prop
  | .ret a, w => ∀ w', env.rely w w' → Q a w'
  | .op e k, w => ∀ w', env.rely w w' → ∀ a w'', env.act w' e a w'' → env.guar w' w'' ∧ wp Q (k a) w''

variable {env} {Q Q' : α → W → Prop} {p : Prog E A α} {w w' : W}

/-- The others' steps keep it. -/
theorem wp_rely (h : env.wp Q p w) (hr : env.rely w w') : env.wp Q p w' := by
  cases p with
  | ret | op => exact fun u hu => h u (env.trans hr hu)

/-- One operation of the program: it is a `guar` step, and the rest is as good. -/
theorem wp_step {e : E} {k : A e → Prog E A α} {a : A e} (h : env.wp Q (.op e k) w) (ha : env.act w e a w') :
    env.guar w w' ∧ env.wp Q (k a) w' :=
  h w (env.refl w) a w' ha

/-- The program has returned. -/
theorem wp_done (h : env.wp Q (.ret a) w) : Q a w := h w (env.refl w)

theorem wp_mono (hQ : ∀ a w, Q a w → Q' a w) (h : env.wp Q p w) : env.wp Q' p w := by
  induction p generalizing w with
  | ret a => exact fun u hu => hQ a u (h u hu)
  | op e k ih =>
    intro u hu a u' ha
    obtain ⟨hg, hk⟩ := h u hu a u' ha
    exact ⟨hg, ih a hk⟩

theorem wp_bind {f : α → Prog E A β} {R : β → W → Prop} :
    env.wp R (p >>= f) w ↔ env.wp (fun a w => env.wp R (f a) w) p w := by
  induction p generalizing w with
  | ret a => exact ⟨fun h u hu => wp_rely h hu, fun h => h w (env.refl w)⟩
  | op e k ih =>
    constructor
    · intro h u hu a u' ha
      obtain ⟨hg, hk⟩ := h u hu a u' ha
      exact ⟨hg, (ih a).1 hk⟩
    · intro h u hu a u' ha
      obtain ⟨hg, hk⟩ := h u hu a u' ha
      exact ⟨hg, (ih a).2 hk⟩

/-- A postcondition may ask for what holds after more `rely` steps. -/
theorem wp_later : env.wp (fun a w => ∀ w', env.rely w w' → Q a w') p w ↔ env.wp Q p w := by
  refine ⟨wp_mono fun a u h => h u (env.refl u), fun h => ?_⟩
  induction p generalizing w with
  | ret a => exact fun u hu u' hu' => h u' (env.trans hu hu')
  | op e k ih =>
    intro u hu a u' ha
    obtain ⟨hg, hk⟩ := h u hu a u' ha
    exact ⟨hg, ih a hk⟩

theorem wp_perform {e : E} {Q : A e → W → Prop}
    (h : ∀ u, env.rely w u → ∀ a u', env.act u e a u' → env.guar u u' ∧ ∀ v, env.rely u' v → Q a v) :
    env.wp Q (Prog.perform e) w := h

/-! ## Programs that may fail -/

section Except
variable {ε : Type}

/-- One postcondition for results, one for errors. -/
def outcome (Q : α → W → Prop) (F : ε → W → Prop) : Except ε α → W → Prop
  | .ok a => Q a
  | .error e => F e

variable (env) in
def wpE (Q : α → W → Prop) (F : ε → W → Prop) (x : ExceptT ε (Prog E A) α) (w : W) : Prop :=
  env.wp (outcome Q F) x.run w

variable {F F' : ε → W → Prop} {x : ExceptT ε (Prog E A) α}

theorem wpE_mono (hQ : ∀ a w, Q a w → Q' a w) (hF : ∀ e w, F e w → F' e w) (h : env.wpE Q F x w) :
    env.wpE Q' F' x w := by
  refine wp_mono ?_ h
  rintro (e | a) u hu
  · exact hF e u hu
  · exact hQ a u hu

theorem wpE_pure : env.wpE Q F (pure a) w ↔ ∀ w', env.rely w w' → Q a w' := Iff.rfl

theorem wpE_throw {e : ε} : env.wpE Q F (throw e) w ↔ ∀ w', env.rely w w' → F e w' := Iff.rfl

theorem wpE_bind {f : α → ExceptT ε (Prog E A) β} {R : β → W → Prop} :
    env.wpE R F (x >>= f) w ↔ env.wpE (fun a w => env.wpE R F (f a) w) F x w := by
  unfold wpE
  rw [ExceptT.run_bind, wp_bind]
  constructor
  · refine wp_mono ?_
    rintro (e | a) u h
    · exact h u (env.refl u)
    · exact h
  · intro h
    refine wp_mono ?_ (wp_later.2 h)
    rintro (e | a) u h
    · exact h
    · exact h u (env.refl u)

theorem wpE_lift {y : Except ε α} (hQ : ∀ a, y = .ok a → ∀ w', env.rely w w' → Q a w')
    (hF : ∀ e, y = .error e → ∀ w', env.rely w w' → F e w') : env.wpE Q F (liftM y) w := by
  cases y with
  | ok a => exact hQ a rfl
  | error e => exact hF e rfl

/-- A program that does not fail. -/
theorem wpE_liftProg (h : env.wp Q p w) : env.wpE Q F (ExceptT.lift p) w := by
  change env.wp (outcome Q F) (Except.ok <$> p) w
  rw [map_eq_pure_bind, wp_bind]
  exact wp_later.2 h

theorem wpE_adapt {ε' : Type} {f : ε → ε'} {F : ε' → W → Prop} (h : env.wpE Q (fun e => F (f e)) x w) : env.wpE Q F (ExceptT.adapt f x) w := by
  change env.wp (outcome Q F) (Except.mapError f <$> x.run) w
  rw [map_eq_pure_bind, wp_bind]
  refine wp_mono ?_ (wp_later.2 h)
  rintro (e | a) u hu
  · exact hu
  · exact hu

end Except

/-! ## Programs with a state of their own -/

section State
variable {ε σ : Type}

variable (env) in
def wpS (Q : α → σ → W → Prop) (F : ε → σ → W → Prop) (x : ExceptT ε (StateT σ (Prog E A)) α) (s : σ) (w : W) : Prop :=
  env.wp (fun r => outcome (fun a => Q a r.2) (fun e => F e r.2) r.1) (x.run.run s) w

variable {Q Q' : α → σ → W → Prop} {F F' : ε → σ → W → Prop} {x : Stateful A ε σ α} {s : σ}

theorem wpS_mono (hQ : ∀ a s w, Q a s w → Q' a s w) (hF : ∀ e s w, F e s w → F' e s w) (h : env.wpS Q F x s w) :
    env.wpS Q' F' x s w := by
  refine wp_mono ?_ h
  rintro ⟨e | a, t⟩ u hu
  · exact hF e t u hu
  · exact hQ a t u hu

theorem wpS_pure : env.wpS Q F (pure a) s w ↔ ∀ w', env.rely w w' → Q a s w' := Iff.rfl

theorem wpS_throw {e : ε} : env.wpS Q F (throw e) s w ↔ ∀ w', env.rely w w' → F e s w' := Iff.rfl

theorem wpS_bind {f : α → Stateful A ε σ β} {R : β → σ → W → Prop} :
    env.wpS R F (x >>= f) s w ↔ env.wpS (fun a s w => env.wpS R F (f a) s w) F x s w := by
  unfold wpS
  rw [ExceptT.run_bind, StateT.run_bind, wp_bind]
  constructor
  · refine wp_mono ?_
    rintro ⟨e | a, t⟩ u h
    · exact h u (env.refl u)
    · exact h
  · intro h
    refine wp_mono ?_ (wp_later.2 h)
    rintro ⟨e | a, t⟩ u h
    · exact h
    · exact h u (env.refl u)

/-- A result passed through a function. -/
theorem wpS_map {f : α → β} {R : β → σ → W → Prop} (h : env.wpS (fun a => R (f a)) F x s w) :
    env.wpS R F (x >>= fun a => pure (f a)) s w := by
  rw [wpS_bind]
  refine wp_mono ?_ (wp_later.2 h)
  rintro ⟨e | a, t⟩ u hu
  · exact hu u (env.refl u)
  · exact hu

theorem wpS_get {Q : σ → σ → W → Prop} :
    env.wpS Q F (getThe σ : Stateful A ε σ σ) s w ↔ ∀ w', env.rely w w' → Q s s w' := Iff.rfl

theorem wpS_modify {Q : Unit → σ → W → Prop} {f : σ → σ} :
    env.wpS Q F (modify f : Stateful A ε σ Unit) s w ↔ ∀ w', env.rely w w' → Q () (f s) w' := Iff.rfl

/-- A computation that leaves the state alone. -/
theorem wpS_aside {y : ExceptT ε (Prog E A) α} (h : env.wpE (fun a => Q a s) (fun e => F e s) y w) :
    env.wpS Q F (ExceptT.mk (StateT.lift y.run) : Stateful A ε σ α) s w := by
  change env.wp _ (y.run >>= fun r => pure (r, s)) w
  rw [wp_bind]
  refine wp_mono ?_ (wp_later.2 h)
  rintro (e | a) u hu
  · exact hu
  · exact hu

theorem wpS_except {y : Except ε α} (hQ : ∀ a, y = .ok a → ∀ w', env.rely w w' → Q a s w')
    (hF : ∀ e, y = .error e → ∀ w', env.rely w w' → F e s w') :
    env.wpS Q F (ExceptT.mk (pure y) : Stateful A ε σ α) s w := by
  cases y with
  | ok a => exact hQ a rfl
  | error e => exact hF e rfl

/-- The handler starts where the error left the state. -/
theorem wpS_tryCatch {h : ε → Stateful A ε σ α}
    (hx : env.wpS Q (fun e s w => env.wpS Q F (h e) s w) x s w) : env.wpS Q F (tryCatch x h) s w := by
  have hrun : (tryCatch x h).run.run s = x.run.run s >>= fun r => match r with
    | (.ok a, t) => pure (.ok a, t)
    | (.error e, t) => (h e).run.run t := by
    simp only [tryCatch, tryCatchThe, MonadExceptOf.tryCatch, ExceptT.tryCatch, ExceptT.run, ExceptT.mk]
    rw [StateT.run_bind]
    refine bind_congr fun r => ?_
    obtain ⟨e | a, t⟩ := r <;> rfl
  unfold wpS
  rw [hrun, wp_bind]
  refine wp_mono ?_ (wp_later.2 hx)
  rintro ⟨e | a, t⟩ u hu
  · exact hu u (env.refl u)
  · exact hu

end State

end Env

end ObjLog.Lib
