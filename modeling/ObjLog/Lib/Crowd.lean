import Mathlib.Logic.Function.Basic
import Mathlib.Logic.Nontrivial.Basic
import ObjLog.Lib.Rely
/-!
# Threads that share a world

Each thread runs one job after the other, and each operation of a job is one
step on the shared world; the world also moves on its own. `kept i w w'` is what
thread `i` counts on while others step from `w` to `w'`. A job's `wp` asks that
each of its steps keep what every other thread counts on.

`Reaches.ok` is the run lemma: in every reachable state each thread is where its
job says. `play` runs a schedule, for runs that are given step by step.
-/

namespace ObjLog.Lib

variable {I W E J : Type} {A : E → Type} {R : J → Type} {start : W → Prop}

/-- What a thread is doing. `began` is the world when its job began. -/
inductive Task (W E : Type) (A : E → Type) {J : Type} (R : J → Type) where
  | idle
  | running (job : J) (began : W) (prog : Prog E A (R job))
  | returned (job : J) (began : W) (reply : R job)

/-- The operations, what the world does on its own, what each thread counts on, and the jobs: when each may begin and
after which reply another may. -/
structure Crowd (I W E : Type) (A : E → Type) {J : Type} (R : J → Type) where
  act : I → W → (e : E) → A e → W → Prop
  tick : W → W → Prop
  kept : I → W → W → Prop
  refl : ∀ i w, kept i w w
  trans : ∀ {i u v w}, kept i u v → kept i v w → kept i u w
  body : I → (j : J) → Prog E A (R j)
  starts : I → W → J → Prop
  again : (j : J) → R j → Prop

namespace Crowd

variable (C : Crowd I W E A R)

def env (i : I) : Env W E A where
  rely := C.kept i
  act := C.act i
  guar w w' := ∀ j, j ≠ i → C.kept j w w'
  refl := C.refl i
  trans := C.trans

def free : Task W E A R → Prop
  | .idle => True
  | .running .. => False
  | .returned j _ r => C.again j r

/-- One step of thread `i`. -/
inductive Step (i : I) : W → Task W E A R → W → Task W E A R → Prop
  | start {w : W} {t : Task W E A R} {j : J} : C.free t → C.starts i w j → Step i w t w (.running j w (C.body i j))
  | turn {w w' : W} {j : J} {began : W} {e : E} {a : A e} {k : A e → Prog E A (R j)} : C.act i w e a w' →
      Step i w (.running j began (.op e k)) w' (.running j began (k a))
  | finish {w : W} {j : J} {began : W} {r : R j} : Step i w (.running j began (.ret r)) w (.returned j began r)

/-- The states that follow from an initial one. -/
inductive Reaches [DecidableEq I] (start : W → Prop) : W → (I → Task W E A R) → Prop
  | start {w : W} : start w → Reaches start w fun _ => .idle
  | step {w w' : W} {ts : I → Task W E A R} {i : I} {t : Task W E A R} : Reaches start w ts →
      C.Step i w (ts i) w' t → Reaches start w' (Function.update ts i t)
  | tick {w w' : W} {ts : I → Task W E A R} : Reaches start w ts → C.tick w w' → Reaches start w' ts

/-- Before each job a thread finds `pre`; a job leaves `post`. -/
structure Meets (pre : I → W → Prop) (post : I → (j : J) → W → R j → W → Prop) : Prop where
  kept : ∀ {i w w'}, C.kept i w w' → pre i w → pre i w'
  tick : ∀ {w w'}, C.tick w w' → ∀ i, C.kept i w w'
  job : ∀ {i j w}, C.starts i w j → pre i w →
    (C.env i).wp (fun r w' => (C.again j r → pre i w') ∧ post i j w r w') (C.body i j) w

/-- What holds of thread `i` between any two steps. -/
def TaskOk (pre : I → W → Prop) (post : I → (j : J) → W → R j → W → Prop) (i : I) (w : W) : Task W E A R → Prop
  | .idle => pre i w
  | .running j began prog => (C.env i).wp (fun r w' => (C.again j r → pre i w') ∧ post i j began r w') prog w
  | .returned j began r => ∀ w', C.kept i w w' → (C.again j r → pre i w') ∧ post i j began r w'

variable {C} {pre : I → W → Prop} {post : I → (j : J) → W → R j → W → Prop} {i : I} {w w' : W} {t t' : Task W E A R}

theorem TaskOk.kept (hmeets : C.Meets pre post) (h : C.TaskOk pre post i w t) (hkept : C.kept i w w') :
    C.TaskOk pre post i w' t := by
  cases t with
  | idle => exact hmeets.kept hkept h
  | running j began prog => exact Env.wp_rely h hkept
  | returned j began r => exact fun w'' hk => h w'' (C.trans hkept hk)

theorem TaskOk.free (h : C.TaskOk pre post i w t) (hfree : C.free t) : pre i w := by
  cases t with
  | idle => exact h
  | running => cases hfree
  | returned j began r => exact (h w (C.refl i w)).1 hfree

theorem TaskOk.returned {j : J} {began : W} {r : R j} (h : C.TaskOk pre post i w (.returned j began r)) :
    post i j began r w :=
  (h w (C.refl i w)).2

/-- A step of a thread keeps what the others count on, and leaves the thread where its job says. -/
theorem Step.ok (hmeets : C.Meets pre post) (h : C.Step i w t w' t') (ht : C.TaskOk pre post i w t) :
    (∀ j, j ≠ i → C.kept j w w') ∧ C.TaskOk pre post i w' t' := by
  cases h with
  | start hfree hstarts => exact ⟨fun j _ => C.refl j w, hmeets.job hstarts (ht.free hfree)⟩
  | turn hact => exact Env.wp_step ht hact
  | finish => exact ⟨fun j _ => C.refl j w, ht⟩

theorem Reaches.ok [DecidableEq I] {ts : I → Task W E A R} (hmeets : C.Meets pre post)
    (hpre : ∀ w i, start w → pre i w) (h : C.Reaches start w ts) : ∀ i, C.TaskOk pre post i w (ts i) := by
  induction h with
  | start hw => exact fun i => hpre _ i hw
  | @step w w' ts i t _ hstep ih =>
    obtain ⟨hothers, ht⟩ := hstep.ok hmeets (ih i)
    intro j
    by_cases hj : j = i
    · subst hj
      simpa using ht
    · rw [Function.update_of_ne hj]
      exact (ih j).kept hmeets (hothers j hj)
  | tick _ htick ih => exact fun i => (ih i).kept hmeets (hmeets.tick htick i)

/-- The states that follow from the one given. -/
inductive Leads [DecidableEq I] (w : W) (ts : I → Task W E A R) : W → (I → Task W E A R) → Prop
  | refl : Leads w ts w ts
  | step {w' w'' : W} {ts' : I → Task W E A R} {i : I} {t : Task W E A R} : Leads w ts w' ts' →
      C.Step i w' (ts' i) w'' t → Leads w ts w'' (Function.update ts' i t)
  | tick {w' w'' : W} {ts' : I → Task W E A R} : Leads w ts w' ts' → C.tick w' w'' → Leads w ts w'' ts'

theorem Reaches.leads [DecidableEq I] {ts ts' : I → Task W E A R} (h : C.Reaches start w ts)
    (hleads : C.Leads w ts w' ts') : C.Reaches start w' ts' := by
  induction hleads with
  | refl => exact h
  | step _ hstep ih => exact .step ih hstep
  | tick _ htick ih => exact .tick ih htick

/-- What holds in a reachable state and is kept holds in the states that follow. -/
theorem Leads.keeps [DecidableEq I] [Nontrivial I] {ts ts' : I → Task W E A R} {inv : W → Prop}
    (hmeets : C.Meets pre post) (hpre : ∀ w i, start w → pre i w) (hkept : ∀ i w w', C.kept i w w' → inv w → inv w')
    (hreach : C.Reaches start w ts) (hinv : inv w) (h : C.Leads w ts w' ts') : inv w' := by
  induction h with
  | refl => exact hinv
  | @step w' w'' ts' i t hleads hstep ih =>
    obtain ⟨j, hj⟩ := exists_ne i
    exact hkept j w' w'' ((hstep.ok hmeets ((hreach.leads hleads).ok hmeets hpre i)).1 j hj) ih
  | @tick w' w'' ts' hleads htick ih =>
    obtain ⟨i, -⟩ := exists_pair_ne I
    exact hkept i w' w'' (hmeets.tick htick i) ih

/-- What every thread counts on holds in every reachable state. -/
theorem Reaches.keeps [DecidableEq I] [Nontrivial I] {ts : I → Task W E A R} {inv : W → Prop}
    (hmeets : C.Meets pre post) (hpre : ∀ w i, start w → pre i w) (hstart : ∀ w, start w → inv w)
    (hkept : ∀ i w w', C.kept i w w' → inv w → inv w') (h : C.Reaches start w ts) : inv w := by
  induction h with
  | start hw => exact hstart _ hw
  | @step w w' ts i t hreach hstep ih =>
    -- a step of `i` keeps what some other thread counts on
    obtain ⟨j, hj⟩ := exists_ne i
    exact hkept j w w' ((hstep.ok hmeets (hreach.ok hmeets hpre i)).1 j hj) ih
  | @tick w w' ts hreach htick ih =>
    obtain ⟨i, -⟩ := exists_pair_ne I
    exact hkept i w w' (hmeets.tick htick i) ih

/-! ## Schedules -/

/-- What happens next: a thread begins a job or goes on with its own. -/
inductive Event (I J : Type) where
  | start (i : I) (j : J)
  | go (i : I)

variable [DecidableEq I]

/-- The step the event asks for; nothing where it does not apply. `choose` picks the answer of an operation. -/
def advance (C : Crowd I W E A R) (choose : I → W → (e : E) → Option (A e × W)) [∀ i w j, Decidable (C.starts i w j)]
    [∀ t, Decidable (C.free t)] (w : W) (ts : I → Task W E A R) : Event I J → W × (I → Task W E A R)
  | .start i j =>
    if C.free (ts i) ∧ C.starts i w j then (w, Function.update ts i (.running j w (C.body i j))) else (w, ts)
  | .go i =>
    match ts i with
    | .running j began (.op e k) =>
      match choose i w e with
      | some (a, w') => (w', Function.update ts i (.running j began (k a)))
      | none => (w, ts)
    | .running j began (.ret r) => (w, Function.update ts i (.returned j began r))
    | _ => (w, ts)

/-- The state after the events. -/
def play (C : Crowd I W E A R) (choose : I → W → (e : E) → Option (A e × W)) [∀ i w j, Decidable (C.starts i w j)]
    [∀ t, Decidable (C.free t)] (w : W) (ts : I → Task W E A R) : List (Event I J) → W × (I → Task W E A R)
  | [] => (w, ts)
  | event :: events =>
    let next := C.advance choose w ts event
    C.play choose next.1 next.2 events

variable {choose : I → W → (e : E) → Option (A e × W)} [∀ i w j, Decidable (C.starts i w j)]
  [∀ t, Decidable (C.free t)] {start : W → Prop} {ts : I → Task W E A R}

variable (hchoose : ∀ {i w e a w'}, choose i w e = some (a, w') → C.act i w e a w') (h : C.Reaches start w ts)
include hchoose h

theorem Reaches.advance (event : Event I J) :
    C.Reaches start (C.advance choose w ts event).1 (C.advance choose w ts event).2 := by
  cases event with
  | start i j =>
    simp only [Crowd.advance]
    split
    · rename_i hstarts
      exact .step h (.start hstarts.1 hstarts.2)
    · exact h
  | go i =>
    simp only [Crowd.advance]
    cases ht : ts i with
    | idle => exact h
    | returned => exact h
    | running j began prog =>
      cases prog with
      | ret r => exact .step h (by rw [ht]; exact .finish)
      | op e k =>
        dsimp only
        cases hanswer : choose i w e with
        | none => exact h
        | some out => exact .step h (by rw [ht]; exact .turn (hchoose hanswer))

theorem Reaches.play (events : List (Event I J)) :
    C.Reaches start (C.play choose w ts events).1 (C.play choose w ts events).2 := by
  induction events generalizing w ts with
  | nil => exact h
  | cons event events ih => exact ih (h.advance hchoose event)

end Crowd

end ObjLog.Lib
