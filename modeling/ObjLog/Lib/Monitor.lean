import Mathlib.Logic.Relation
import ObjLog.Lib.Rely
/-!
# Programs that share a state behind a lock

A program that holds the lock works on the state alone; the others see what it
did when it releases the lock. `acquire ready ctx` waits for the lock and for
`ready` to hold; with a context it may also end with the context's error.

What a program may do to the state is given by its moves. Between a release and
the next acquisition the others have moved: `Others`. A program that holds the
lock has moved since it acquired it: `Held`. The rules `wp_lock`, `wp_unlock`
and `wp_await` pass from one to the other, and the invariant goes along.
-/

namespace ObjLog.Lib

/-- What a program asks for. -/
inductive Turn (S C E : Type) where
  | call (e : E)
  | acquire (ready : S → Bool) (ctx : Option C)
  | release (s : S)

variable {I S C ε E : Type} {A : E → Type} {α β : Type} {a : α} {e : E}

def Turn.Answer (ε : Type) (A : E → Type) : Turn S C E → Type
  | .call e => A e
  | .acquire _ _ => S × Option ε
  | .release _ => Unit

/-- Who holds the lock, and the state when it was last free. -/
structure World (I S : Type) where
  holder : Option I
  shared : S

/-- The moves of each program, what they all keep, and what comes from outside. -/
structure Monitor (I S C ε E : Type) (A : E → Type) where
  move : I → S → S → Prop
  inv : S → Prop
  ends : C → S → ε → Prop
  answers : (e : E) → A e → Prop
  inv_move : ∀ {i s s'}, move i s s' → inv s → inv s'

namespace Monitor

variable (M : Monitor I S C ε E A) (i : I)

def Moves : S → S → Prop := Relation.ReflTransGen (M.move i)

def Others : S → S → Prop := Relation.ReflTransGen fun s s' => ∃ j, j ≠ i ∧ M.move j s s'

/-- One turn of program `i`. -/
inductive Act : World I S → (t : Turn S C E) → t.Answer ε A → World I S → Prop
  | call {w : World I S} {e : E} {a : A e} : M.answers e a → Act w (.call e) a w
  | acquire {w : World I S} {ready : S → Bool} {ctx : Option C} : w.holder = none → ready w.shared = true →
      Act w (.acquire ready ctx) (w.shared, none) ⟨some i, w.shared⟩
  | quit {w : World I S} {ready : S → Bool} {c : C} {e : ε} : w.holder = none → M.ends c w.shared e →
      Act w (.acquire ready (some c)) (w.shared, some e) ⟨some i, w.shared⟩
  | release {w : World I S} {s : S} : w.holder = some i → Act w (.release s) () ⟨none, s⟩

variable {M i} {s s' s₀ s₁ : S} {w w' : World I S}

theorem Moves.inv (h : M.Moves i s s') (hs : M.inv s) : M.inv s' := by
  induction h with
  | refl => exact hs
  | tail _ hmove ih => exact M.inv_move hmove ih

theorem Others.inv (h : M.Others i s s') (hs : M.inv s) : M.inv s' := by
  induction h with
  | refl => exact hs
  | tail _ hmove ih =>
    obtain ⟨j, _, hmove⟩ := hmove
    exact M.inv_move hmove ih

theorem Moves.others {j : I} (h : M.Moves j s s') (hj : j ≠ i) : M.Others i s s' :=
  Relation.ReflTransGen.mono (fun _ _ hmove => ⟨j, hj, hmove⟩) _ _ h

/-- What every move of the others keeps under the invariant, they keep. -/
theorem Others.keeps {P : S → Prop} (h : M.Others i s s') (hs : M.inv s) (hP : P s)
    (hmove : ∀ {j u v}, j ≠ i → M.inv u → M.move j u v → P u → P v) : P s' := by
  have : M.inv s' ∧ P s' := by
    induction h with
    | refl => exact ⟨hs, hP⟩
    | tail _ hstep ih =>
      obtain ⟨j, hj, hstep⟩ := hstep
      exact ⟨M.inv_move hstep ih.1, hmove hj ih.1 hstep ih.2⟩
  exact this.2

variable (M i)

/-- While program `i` holds the lock, nobody else acts on the state. -/
def env : Env (World I S) (Turn S C E) (Turn.Answer ε A) where
  rely w w' := (w.holder = some i ∧ w' = w) ∨
    (w.holder ≠ some i ∧ w'.holder ≠ some i ∧ M.Others i w.shared w'.shared)
  act := M.Act i
  guar w w' := w' = w ∨
    ((w.holder = none ∨ w.holder = some i) ∧ (w'.holder = none ∨ w'.holder = some i) ∧ M.Moves i w.shared w'.shared)
  refl w := by
    by_cases h : w.holder = some i
    · exact .inl ⟨h, rfl⟩
    · exact .inr ⟨h, h, .refl⟩
  trans := by
    rintro u v w (⟨hu, rfl⟩ | ⟨hu, hv, huv⟩) hvw
    · exact hvw
    · rcases hvw with ⟨hv', _⟩ | ⟨_, hw, hvw⟩
      · exact absurd hv' hv
      · exact .inr ⟨hu, hw, huv.trans hvw⟩

variable {M i}

/-- What one program does is what the others rely on. -/
theorem rely_of_guar {j : I} (h : (M.env i).guar w w') (hj : j ≠ i) : (M.env j).rely w w' := by
  rcases h with rfl | ⟨hw, hw', hmoves⟩
  · exact (M.env j).refl _
  · have hne : some i ≠ some j := fun h => hj (Option.some.inj h).symm
    refine .inr ⟨?_, ?_, hmoves.others hj.symm⟩
    · rcases hw with hw | hw
      · simp [hw]
      · rwa [hw]
    · rcases hw' with hw' | hw'
      · simp [hw']
      · rwa [hw']

/-! ## Programs with the lock -/

/-- Program `i` holds the lock; it has moved the state to `s` since it acquired it. -/
structure Held (M : Monitor I S C ε E A) (i : I) (w : World I S) (s : S) : Prop where
  holder : w.holder = some i
  start : M.inv w.shared
  moves : M.Moves i w.shared s

/-- Program `i` does not hold the lock; `s` is the state it left. -/
structure Away (M : Monitor I S C ε E A) (i : I) (w : World I S) (s : S) : Prop where
  holder : w.holder ≠ some i
  inv : M.inv w.shared
  others : M.Others i s w.shared

theorem Held.inv (h : M.Held i w s) : M.inv s := h.moves.inv h.start

theorem Held.move (h : M.Held i w s) (hmove : M.move i s s') : M.Held i w s' :=
  ⟨h.holder, h.start, h.moves.tail hmove⟩

theorem Held.acquired (hs : M.inv s) : M.Held i ⟨some i, s⟩ s := ⟨rfl, hs, .refl⟩

theorem Held.rely (h : M.Held i w s) (hr : (M.env i).rely w w') : w' = w := by
  rcases hr with ⟨_, rfl⟩ | ⟨hne, _⟩
  · rfl
  · exact absurd h.holder hne

theorem Away.rely (h : M.Away i w s) (hr : (M.env i).rely w w') : M.Away i w' s := by
  rcases hr with ⟨heq, _⟩ | ⟨_, hne, hothers⟩
  · exact absurd heq h.holder
  · exact ⟨hne, hothers.inv h.inv, h.others.trans hothers⟩

/-- The state left is only a point to count from. -/
theorem Away.from (h : M.Away i w s) : M.Away i w w.shared := ⟨h.holder, h.inv, .refl⟩

/-! ## Weakest preconditions -/

variable (M i) in
/-- `x`, started with local state `s` in world `w`, returns only where `Q` holds. -/
def wp (Q : α → S → World I S → Prop) (x : StateT S (Prog (Turn S C E) (Turn.Answer ε A)) α) (s : S)
    (w : World I S) : Prop :=
  (M.env i).wp (fun r => Q r.1 r.2) (x.run s) w

variable {Q Q' : α → S → World I S → Prop} {x : StateT S (Prog (Turn S C E) (Turn.Answer ε A)) α}

theorem wp_mono (hQ : ∀ a s w, Q a s w → Q' a s w) (h : M.wp i Q x s w) : M.wp i Q' x s w :=
  Env.wp_mono (fun r => hQ r.1 r.2) h

theorem wp_bind {f : α → StateT S (Prog (Turn S C E) (Turn.Answer ε A)) β} {R : β → S → World I S → Prop} :
    M.wp i R (x >>= f) s w ↔ M.wp i (fun a s w => M.wp i R (f a) s w) x s w := by
  unfold wp
  rw [StateT.run_bind, Env.wp_bind]

/-- Nothing moves while the lock is held. -/
theorem Held.forall_rely (h : M.Held i w s₀) {P : World I S → Prop} : (∀ w', (M.env i).rely w w' → P w') ↔ P w := by
  refine ⟨fun hw => hw w ((M.env i).refl w), fun hP w' hr => ?_⟩
  rw [h.rely hr]
  exact hP

theorem wp_pure (h : M.Held i w s₀) : M.wp i Q (pure a) s w ↔ Q a s w := h.forall_rely

theorem wp_get (h : M.Held i w s₀) {Q : S → S → World I S → Prop} : M.wp i Q get s w ↔ Q s s w := h.forall_rely

theorem wp_modify (h : M.Held i w s₀) {Q : Unit → S → World I S → Prop} {f : S → S} :
    M.wp i Q (modify f) s w ↔ Q () (f s) w := h.forall_rely

theorem wp_modifyGet (h : M.Held i w s₀) {f : S → α × S} : M.wp i Q (modifyGet f) s w ↔ Q (f s).1 (f s).2 w := h.forall_rely

theorem wp_pure_away (h : M.Away i w s₀) (hQ : ∀ w', M.Away i w' s₀ → Q a s w') : M.wp i Q (pure a) s w :=
  fun w' hr => hQ w' (h.rely hr)

/-! ## Turns -/

def ask (e : E) : StateT S (Prog (Turn S C E) (Turn.Answer ε A)) (A e) := StateT.lift (Prog.perform (Turn.call e))

/-- Wait for the lock and for `ready`, or for the end of the context. -/
def lockWhen (ready : S → Bool) (ctx : Option C) : StateT S (Prog (Turn S C E) (Turn.Answer ε A)) (Option ε) :=
  fun _ => Prog.perform (Turn.acquire ready ctx) >>= fun r => pure (r.2, r.1)

def lock : StateT S (Prog (Turn S C E) (Turn.Answer ε A)) Unit :=
  fun _ => Prog.perform (Turn.acquire (fun _ => true) none) >>= fun r => pure ((), r.1)

def unlock : StateT S (Prog (Turn S C E) (Turn.Answer ε A)) Unit :=
  fun s => Prog.perform (Turn.release s) >>= fun _ => pure ((), s)

/-- Release the lock until `ready` holds, or the context ends. -/
def await (ready : S → Bool) (ctx : C) : StateT S (Prog (Turn S C E) (Turn.Answer ε A)) (Option ε) := do
  unlock
  lockWhen ready (some ctx)

theorem wp_ask (h : M.Held i w s₀) {Q : A e → S → World I S → Prop} (hQ : ∀ a, M.answers e a → Q a s w) :
    M.wp i Q (ask e) s w := by
  intro w₁ hr a w₂ ha
  obtain rfl := h.rely hr
  cases ha with
  | call ha =>
    refine ⟨.inl rfl, fun w₃ hr => ?_⟩
    rw [h.rely hr]
    exact hQ a ha

theorem wp_ask_away (h : M.Away i w s₀) {Q : A e → S → World I S → Prop}
    (hQ : ∀ a, M.answers e a → ∀ w', M.Away i w' s₀ → Q a s w') : M.wp i Q (ask e) s w := by
  intro w₁ hr a w₂ ha
  cases ha with
  | call ha => exact ⟨.inl rfl, fun w₃ hr' => hQ a ha w₃ ((h.rely hr).rely hr')⟩

/-- How an acquisition ends. -/
inductive Woken (M : Monitor I S C ε E A) (ready : S → Bool) (ctx : Option C) (s : S) : Option ε → Prop
  | ready : ready s = true → Woken M ready ctx s none
  | quit {c : C} {e : ε} : ctx = some c → M.ends c s e → Woken M ready ctx s (some e)

theorem wp_lockWhen (h : M.Away i w s₀) {ready : S → Bool} {ctx : Option C} {Q : Option ε → S → World I S → Prop}
    (hQ : ∀ r s₁, M.Others i s₀ s₁ → M.Held i ⟨some i, s₁⟩ s₁ → Woken M ready ctx s₁ r → Q r s₁ ⟨some i, s₁⟩) :
    M.wp i Q (lockWhen ready ctx) s w := by
  intro w₁ hr a w₂ ha
  have hw₁ := h.rely hr
  have hguar : w₁.holder = none → (M.env i).guar w₁ ⟨some i, w₁.shared⟩ := fun hnone =>
    .inr ⟨.inl hnone, .inr rfl, .refl⟩
  have hheld : M.Held i ⟨some i, w₁.shared⟩ w₁.shared := .acquired hw₁.inv
  cases ha with
  | acquire hnone hready =>
    refine ⟨hguar hnone, fun w₃ hr' => ?_⟩
    rw [hheld.rely hr']
    exact hQ none w₁.shared hw₁.others hheld (.ready hready)
  | quit hnone hends =>
    refine ⟨hguar hnone, fun w₃ hr' => ?_⟩
    rw [hheld.rely hr']
    exact hQ _ w₁.shared hw₁.others hheld (.quit rfl hends)

theorem wp_lock (h : M.Away i w s₀) {Q : Unit → S → World I S → Prop}
    (hQ : ∀ s₁, M.Others i s₀ s₁ → M.Held i ⟨some i, s₁⟩ s₁ → Q () s₁ ⟨some i, s₁⟩) : M.wp i Q lock s w := by
  intro w₁ hr a w₂ ha
  have hw₁ := h.rely hr
  cases ha with
  | acquire hnone =>
    refine ⟨.inr ⟨.inl hnone, .inr rfl, .refl⟩, fun w₃ hr' => ?_⟩
    rw [(Held.acquired hw₁.inv).rely hr']
    exact hQ w₁.shared hw₁.others (.acquired hw₁.inv)

theorem wp_unlock (h : M.Held i w s) {Q : Unit → S → World I S → Prop} (hQ : ∀ w', M.Away i w' s → Q () s w') :
    M.wp i Q unlock s w := by
  intro w₁ hr a w₂ ha
  obtain rfl := h.rely hr
  cases ha with
  | release hheld =>
    refine ⟨.inr ⟨.inr hheld, .inl rfl, h.moves⟩, fun w₃ hr' => hQ w₃ ?_⟩
    exact Away.rely (w := ⟨none, s⟩) ⟨nofun, h.inv, .refl⟩ hr'

theorem wp_await (h : M.Held i w s) {ready : S → Bool} {ctx : C} {Q : Option ε → S → World I S → Prop}
    (hQ : ∀ r s₁, M.Others i s s₁ → M.Held i ⟨some i, s₁⟩ s₁ → Woken M ready (some ctx) s₁ r → Q r s₁ ⟨some i, s₁⟩) :
    M.wp i Q (await ready ctx) s w := by
  unfold await
  rw [wp_bind]
  exact wp_unlock h fun w' haway => wp_lockWhen haway hQ

/-! ## Programs outside the monitor -/

/-- Program `i` does not hold the lock and has left the state `s`, which is in order. -/
structure Rests (M : Monitor I S C ε E A) (i : I) (w : World I S) (s : S) : Prop where
  away : M.Away i w s
  inv : M.inv s

theorem Rests.rely (h : M.Rests i w s) (hr : (M.env i).rely w w') : M.Rests i w' s := ⟨h.away.rely hr, h.inv⟩

theorem Rests.from (h : M.Rests i w s) : M.Rests i w w.shared := ⟨h.away.from, h.away.inv⟩

theorem wp_release (h : M.Held i w s) {Q : Unit → S → World I S → Prop} (hQ : ∀ w', M.Rests i w' s → Q () s w') :
    M.wp i Q unlock s w :=
  wp_unlock h fun w' haway => hQ w' ⟨haway, h.inv⟩

theorem wp_return (h : M.Rests i w s) (hQ : ∀ w', M.Rests i w' s → Q a s w') : M.wp i Q (pure a) s w :=
  wp_pure_away h.away fun w' haway => hQ w' ⟨haway, h.inv⟩

theorem wp_inquire (h : M.Rests i w s) {Q : A e → S → World I S → Prop}
    (hQ : ∀ a w', M.Rests i w' s → Q a s w') : M.wp i Q (ask e) s w :=
  wp_ask_away h.away fun a _ w' haway => hQ a w' ⟨haway, h.inv⟩

/-- The lock is released and the program returns. -/
theorem wp_leave (h : M.Held i w s) (hQ : ∀ w', M.Rests i w' s → Q a s w') :
    M.wp i Q (unlock >>= fun _ => pure a) s w := by
  rw [wp_bind]
  exact wp_release h fun w' hrests => wp_return hrests hQ

end Monitor

end ObjLog.Lib
