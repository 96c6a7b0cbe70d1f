import Mathlib.Logic.Function.Basic
import ObjLog.Lib.Monitor
/-!
# Threads that share a monitor

Each thread runs one job after the other. A step of the system is one step of
one thread: it begins a job, takes a turn at the monitor or the outside, or
returns. Nothing orders the threads.

`Meets` says what each job does on its own, among others that keep to their
moves. `Reaches.ok` is the run lemma: in every reachable state the shared state
is in order and every thread is where its job says.
-/

namespace ObjLog.Lib

variable {I S C ε E J : Type} {A : E → Type} {R : J → Type}

/-- What a thread is doing. `began` is the shared state when the job began, `left` the state it last released. -/
inductive Thread (S C ε E : Type) (A : E → Type) {J : Type} (R : J → Type) where
  | idle
  | running (job : J) (began : S) (prog : Prog (Turn S C E) (Turn.Answer ε A) (R job × S))
  | returned (job : J) (began : S) (reply : R job) (left : S)

/-- The jobs of the threads, when each may begin, and after which result another may. -/
structure Jobs (I S C ε E : Type) (A : E → Type) {J : Type} (R : J → Type) where
  body : I → (j : J) → StateT S (Prog (Turn S C E) (Turn.Answer ε A)) (R j)
  starts : I → S → J → Bool
  again : (j : J) → R j → Bool

structure System (I S C ε E : Type) (A : E → Type) {J : Type} (R : J → Type) where
  world : World I S
  threads : I → Thread S C ε E A R

namespace Jobs

variable (jobs : Jobs I S C ε E A R) (M : Monitor I S C ε E A)

def free : Thread S C ε E A R → Bool
  | .idle => true
  | .running .. => false
  | .returned j _ r _ => jobs.again j r

/-- One step of thread `i`. -/
inductive Step (i : I) : World I S → Thread S C ε E A R → World I S → Thread S C ε E A R → Prop
  | start {w : World I S} {th : Thread S C ε E A R} {j : J} : jobs.free th = true → jobs.starts i w.shared j = true →
      Step i w th w (.running j w.shared ((jobs.body i j).run w.shared))
  | turn {w w' : World I S} {j : J} {began : S} {t : Turn S C E} {a : t.Answer ε A}
      {k : t.Answer ε A → Prog (Turn S C E) (Turn.Answer ε A) (R j × S)} : M.Act i w t a w' →
      Step i w (.running j began (.op t k)) w' (.running j began (k a))
  | finish {w : World I S} {j : J} {began : S} {r : R j × S} :
      Step i w (.running j began (.ret r)) w (.returned j began r.1 r.2)

/-- The states that follow from an initial one. -/
inductive Reaches [DecidableEq I] (start : S → Prop) : System I S C ε E A R → Prop
  | start {s : S} : start s → Reaches start ⟨⟨none, s⟩, fun _ => .idle⟩
  | step {σ : System I S C ε E A R} {i : I} {w : World I S} {th : Thread S C ε E A R} : Reaches start σ →
      jobs.Step M i σ.world (σ.threads i) w th → Reaches start ⟨w, Function.update σ.threads i th⟩

/-- Between two jobs a thread finds `pre`; a job leaves `post`. -/
structure Meets (pre : I → S → Prop) (post : I → (j : J) → S → R j → S → Prop) : Prop where
  others : ∀ {i s s'}, M.Others i s s' → M.inv s → pre i s → pre i s'
  job : ∀ {i j w}, jobs.starts i w.shared j = true → M.Rests i w w.shared → pre i w.shared →
    M.wp i (fun r s w' => M.Rests i w' s ∧ post i j w.shared r s) (jobs.body i j) w.shared w
  again : ∀ {i j began r left}, post i j began r left → jobs.again j r = true → pre i left

/-- What holds of thread `i` between any two steps of the system. -/
def ThreadOk (pre : I → S → Prop) (post : I → (j : J) → S → R j → S → Prop) (i : I) (w : World I S) :
    Thread S C ε E A R → Prop
  | .idle => M.Rests i w w.shared ∧ pre i w.shared
  | .running j began prog => (M.env i).wp (fun r w' => M.Rests i w' r.2 ∧ post i j began r.1 r.2) prog w
  | .returned j began r left => M.Rests i w left ∧ post i j began r left

variable {jobs M} {pre : I → S → Prop} {post : I → (j : J) → S → R j → S → Prop} {i : I} {w w' : World I S}
  {th th' : Thread S C ε E A R}

section
variable (hmeets : jobs.Meets M pre post)
include hmeets

/-- The others' steps keep it. -/
theorem ThreadOk.rely (h : ThreadOk M pre post i w th) (hr : (M.env i).rely w w') : ThreadOk M pre post i w' th := by
  cases th with
  | idle =>
    have hrests := h.1.rely hr
    exact ⟨hrests.from, hmeets.others hrests.away.others h.1.inv h.2⟩
  | running j began prog => exact Env.wp_rely h hr
  | returned j began r left => exact ⟨h.1.rely hr, h.2⟩

/-- A thread that may begin a job finds `pre`. -/
theorem ThreadOk.free (h : ThreadOk M pre post i w th) (hfree : jobs.free th = true) :
    M.Rests i w w.shared ∧ pre i w.shared := by
  cases th with
  | idle => exact h
  | running => cases hfree
  | returned j began r left =>
    exact ⟨h.1.from, hmeets.others h.1.away.others h.1.inv (hmeets.again h.2 hfree)⟩

/-- A step of the thread keeps it too, and is one of its moves. -/
theorem Step.ok (h : jobs.Step M i w th w' th') (hth : ThreadOk M pre post i w th) :
    (M.env i).guar w w' ∧ ThreadOk M pre post i w' th' := by
  cases h with
  | start hfree hstarts =>
    obtain ⟨hrests, hpre⟩ := hth.free hmeets hfree
    exact ⟨.inl rfl, hmeets.job hstarts hrests hpre⟩
  | turn hact => exact Env.wp_step hth hact
  | finish => exact ⟨.inl rfl, hth w ((M.env i).refl w)⟩

theorem Reaches.ok [DecidableEq I] {start : S → Prop} {σ : System I S C ε E A R}
    (hinv : ∀ s, start s → M.inv s) (hpre : ∀ s i, start s → pre i s) (h : jobs.Reaches M start σ) :
    M.inv σ.world.shared ∧ ∀ i, ThreadOk M pre post i σ.world (σ.threads i) := by
  induction h with
  | @start s hs => exact ⟨hinv s hs, fun i => ⟨⟨⟨nofun, hinv s hs, .refl⟩, hinv s hs⟩, hpre s i hs⟩⟩
  | @step σ i w th _ hstep ih =>
    obtain ⟨hguar, hth⟩ := hstep.ok hmeets (ih.2 i)
    refine ⟨?_, fun j => ?_⟩
    · rcases hguar with rfl | ⟨_, _, hmoves⟩
      · exact ih.1
      · exact hmoves.inv ih.1
    · by_cases hj : j = i
      · subst hj
        simpa using hth
      · have hsame : Function.update σ.threads i th j = σ.threads j := Function.update_of_ne hj ..
        dsimp only
        rw [hsame]
        exact (ih.2 j).rely hmeets (Monitor.rely_of_guar hguar hj)

end

/-! ## Schedules -/

/-- What a thread does next: begin a job, or go on with its own. -/
inductive Event (J : Type) where
  | start (j : J)
  | go

variable [DecidableEq I]

/-- The step of thread `i` that the event asks for; nothing where it does not apply. -/
def advance (jobs : Jobs I S C ε E A R) (answer : (e : E) → A e) (i : I) (w : World I S) (th : Thread S C ε E A R) :
    Event J → World I S × Thread S C ε E A R
  | .start j =>
    if jobs.free th && jobs.starts i w.shared j then (w, .running j w.shared ((jobs.body i j).run w.shared)) else (w, th)
  | .go =>
    match th with
    | .running j began (.op (.call e) k) => (w, .running j began (k (answer e)))
    | .running j began (.op (.acquire ready ctx) k) =>
      if w.holder = none ∧ ready w.shared = true then (⟨some i, w.shared⟩, .running j began (k (w.shared, none)))
      else (w, .running j began (.op (.acquire ready ctx) k))
    | .running j began (.op (.release s) k) =>
      if w.holder = some i then (⟨none, s⟩, .running j began (k ())) else (w, .running j began (.op (.release s) k))
    | .running j began (.ret r) => (w, .returned j began r.1 r.2)
    | th => (w, th)

variable (jobs M) in
theorem step_advance {answer : (e : E) → A e} (hanswer : ∀ e, M.answers e (answer e)) (i : I) (w : World I S)
    (th : Thread S C ε E A R) (event : Event J) : jobs.advance answer i w th event = (w, th) ∨
      jobs.Step M i w th (jobs.advance answer i w th event).1 (jobs.advance answer i w th event).2 := by
  cases event with
  | start j =>
    simp only [advance]
    split
    · rename_i hmay
      rw [Bool.and_eq_true] at hmay
      exact .inr (.start hmay.1 hmay.2)
    · exact .inl rfl
  | go =>
    cases th with
    | idle => exact .inl rfl
    | returned => exact .inl rfl
    | running j began prog =>
      cases prog with
      | ret r => exact .inr .finish
      | op t k =>
        cases t with
        | call e => exact .inr (.turn (.call (hanswer e)))
        | acquire ready ctx =>
          simp only [advance]
          split
          · rename_i hready
            exact .inr (.turn (.acquire hready.1 hready.2))
          · exact .inl rfl
        | release s =>
          simp only [advance]
          split
          · rename_i hholder
            exact .inr (.turn (.release hholder))
          · exact .inl rfl

/-- The system after the events, each of one thread. -/
def play (jobs : Jobs I S C ε E A R) (answer : (e : E) → A e) :
    System I S C ε E A R → List (I × Event J) → System I S C ε E A R
  | σ, [] => σ
  | σ, (i, event) :: rest =>
    let next := jobs.advance answer i σ.world (σ.threads i) event
    play jobs answer ⟨next.1, Function.update σ.threads i next.2⟩ rest

theorem Reaches.play {answer : (e : E) → A e} (hanswer : ∀ e, M.answers e (answer e)) {start : S → Prop}
    {σ : System I S C ε E A R} (h : jobs.Reaches M start σ) (events : List (I × Event J)) :
    jobs.Reaches M start (jobs.play answer σ events) := by
  induction events generalizing σ with
  | nil => exact h
  | cons event rest ih =>
    obtain ⟨i, event⟩ := event
    refine ih ?_
    rcases step_advance jobs M hanswer i σ.world (σ.threads i) event with hsame | hstep
    · rw [hsame, Function.update_eq_self]
      exact h
    · exact .step h hstep

end Jobs

end ObjLog.Lib
