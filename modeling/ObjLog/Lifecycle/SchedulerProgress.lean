import ObjLog.Lib.Progress
import ObjLog.Lifecycle.SchedulerRuns
/-!
# What a call of `Run` does in the end

Every step of a goroutine lowers a measure that the clock and the context do not
raise: the work left in the tasks first, then the way of `Run` to its next move. A
timer does not break this, since the head of the queue is ready when it fires.
-/

namespace ObjLog.Lifecycle

open Lib

section
variable {s : Scheduler} {tasks : List Task} {r r' : Run} {n : Nat}

/-! ## The measure -/

/-- The steps a task still has to take before its passes are used up. -/
def Item.work (s : Scheduler) (item : Item) : Nat :=
  6 * (s.maxPasses - item.1.passes) - match item.2 with
    | .queued => 0
    | .spawned => 1
    | .calling => 2
    | .finished _ => 3
    | .sent _ => 4
    | .handled _ => 5

/-- The steps to the next one that moves a task. A head of the queue that may start shortens the way. -/
def Scheduler.rank (s : Scheduler) (r : Run) : Nat :=
  match r.pc with
  | .top => if s.ready r.active r.queue r.clock then 4 else 9
  | .checked => if s.ready r.active r.queue r.clock then 3 else 8
  | .starting now => if s.ready r.active r.queue now then 2 else 7
  | .arming _ => 6
  | .waiting _ => 5
  | .handling _ => 9
  | .draining _ _ => 1
  | .refused _ | .returned _ | .canceled _ => 0

def Scheduler.measure (s : Scheduler) (r : Run) : Nat := 10 * (r.items.map (Item.work s)).sum + s.rank r

theorem rank_le (s : Scheduler) (r : Run) : s.rank r ≤ 9 := by
  unfold Scheduler.rank
  split <;> first | omega | (split <;> omega)

/-- A step that moves a task lowers the measure, wherever `Run` goes. -/
theorem measure_moved {item item' : Item} {rest : List Item} (hold : r.items.Perm (item :: rest))
    (hnew : r'.items.Perm (item' :: rest)) (hwork : item'.work s < item.work s) : s.measure r' < s.measure r := by
  have h := (hold.map (Item.work s)).sum_nat
  have h' := (hnew.map (Item.work s)).sum_nat
  have hrank := rank_le s r'
  simp only [List.map_cons, List.sum_cons] at h h'
  unfold Scheduler.measure
  omega

theorem measure_dropped {item : Item} {rest : List Item} (hold : r.items.Perm (item :: rest))
    (hnew : r'.items.Perm rest) (hwork : 0 < item.work s) : s.measure r' < s.measure r := by
  have h := (hold.map (Item.work s)).sum_nat
  have h' := (hnew.map (Item.work s)).sum_nat
  have hrank := rank_le s r'
  simp only [List.map_cons, List.sum_cons] at h h'
  unfold Scheduler.measure
  omega

theorem measure_pc {pc : Pc} (hhandled : pc.handled = r.pc.handled)
    (hrank : s.rank { r with pc := pc } < s.rank r) : s.measure { r with pc := pc } < s.measure r := by
  have hitems : ({ r with pc := pc } : Run).items = r.items := by simp only [Run.items, hhandled]
  unfold Scheduler.measure
  rw [hitems]
  omega

theorem items_settle (s : Scheduler) (r : Run) (pass : PassResult) (jitter : Int → Int) :
    (s.settle jitter r pass).items = itemsOf r.queue r.passes r.completed [] ∨
    ∃ item : ScheduledTask, item.passes = pass.task.passes + 1 ∧ (s.settle jitter r pass).items.Perm
      ((item, .queued) :: itemsOf r.queue r.passes r.completed []) := by
  unfold Scheduler.settle
  dsimp only
  split
  · exact .inl rfl
  · exact .inl rfl
  · exact .inl rfl
  · exact .inr ⟨_, rfl, itemsOf_push⟩
  · exact .inr ⟨_, rfl, itemsOf_push⟩

theorem Turn.lowers (h : Inv s tasks r) (hturn : Turn s r r') : s.measure r' < s.measure r := by
  have hfits := h.tracked.fits
  cases hturn with
  | finish hpc | stop hpc | goOn hpc | look hpc =>
    refine measure_pc (by rw [hpc]; rfl) ?_
    simp only [Scheduler.rank, hpc]
    split <;> omega
  | @start now item queue hpc hready hqueue =>
    have hold := items_queue hqueue
    have hroom := (hfits (item, .queued) (by rw [hold]; exact List.mem_cons_self)).passes
    refine measure_moved (.of_eq hold) itemsOf_spawned ?_
    simp only [Item.work, Pass.item, Stage.place] at hroom ⊢
    omega
  | started hpc hready =>
    rcases Inv.armed_cases s r with ⟨harmed, -⟩ | ⟨item, queue, -, -, harmed⟩
    · rw [harmed]
      refine measure_pc (by rw [hpc]; rfl) ?_
      simp only [Scheduler.rank, hpc, hready]
      decide
    · rw [harmed]
      refine measure_pc (by rw [hpc]; rfl) ?_
      simp only [Scheduler.rank, hpc, hready]
      decide
  | arm hpc | done hpc | drained hpc =>
    refine measure_pc (by rw [hpc]; rfl) ?_
    simp only [Scheduler.rank, hpc]
    decide
  | @receive timer pass completed hpc hcompleted =>
    have hold := items_completed hcompleted
    rw [hpc] at hold
    have hroom := (hfits _ (hold.mem_iff.2 List.mem_cons_self)).passes
    refine measure_moved hold itemsOf_handled ?_
    simp only [Item.work, PassResult.item] at hroom ⊢
    omega
  | @settle pass jitter hpc =>
    have hold := items_handling hpc
    have hroom := (hfits _ (hold.mem_iff.2 List.mem_cons_self)).passes
    rcases items_settle s r pass jitter with hnew | ⟨item, hpasses, hnew⟩
    · refine measure_dropped hold (.of_eq hnew) ?_
      simp only [Item.work, PassResult.item] at hroom ⊢
      omega
    · refine measure_moved hold hnew ?_
      simp only [Item.work, PassResult.item] at hroom ⊢
      omega
  | @timer deadline hpc hdeadline =>
    -- the head of the queue is ready when the timer fires
    obtain ⟨item, queue, hqueue, hroom, hdue⟩ : s.Due r deadline := by
      have hplaced := h.placed
      simpa only [Scheduler.Placed, hpc] using hplaced
    refine measure_pc (by rw [hpc]; rfl) ?_
    have hready : s.ready r.active r.queue r.clock = true := by
      simp [Scheduler.ready, hqueue, hroom, hdue.trans hdeadline]
    simp only [Scheduler.rank, hpc, hready]
    decide
  | @drain left err pass completed hpc hcompleted =>
    have hold := items_completed hcompleted
    rw [hpc] at hold
    have hroom := (hfits _ (hold.mem_iff.2 List.mem_cons_self)).passes
    refine measure_dropped hold (.of_eq rfl) ?_
    simp only [Item.work, PassResult.item] at hroom ⊢
    omega

theorem PassStep.lowers (h : Inv s tasks r) (hstep : PassStep s r r') : s.measure r' < s.measure r := by
  have hfits := h.tracked.fits
  cases hstep with
  | call hpasses | return_ hpasses =>
    have hold := items_passes hpasses
    have hroom := (hfits _ (hold.mem_iff.2 List.mem_cons_self)).passes
    refine measure_moved hold itemsOf_pass ?_
    simp only [Item.work, Pass.item, Stage.place] at hroom ⊢
    omega
  | send hpasses _ =>
    have hold := items_passes hpasses
    have hroom := (hfits _ (hold.mem_iff.2 List.mem_cons_self)).passes
    refine measure_moved hold itemsOf_last ?_
    simp only [Item.work, Pass.item, Stage.place, PassResult.item] at hroom ⊢
    omega

theorem Tick.keeps (htick : Tick r r') : s.measure r' ≤ s.measure r := by
  cases htick with
  | ctx => exact le_refl _
  | @clock now hle =>
    -- more of the queue may be ready
    have hready : s.ready r.active r.queue r.clock = true → s.ready r.active r.queue now = true := by
      simp only [Scheduler.ready, Bool.and_eq_true, Option.any_eq_true, decide_eq_true_eq]
      rintro ⟨hroom, item, hhead, hitem⟩
      exact ⟨hroom, item, hhead, hitem.trans hle⟩
    refine Nat.add_le_add_left ?_ _
    simp only [Scheduler.rank]
    cases hpc : r.pc with
    | top | checked =>
      dsimp only
      by_cases hr : s.ready r.active r.queue r.clock = true
      · rw [if_pos hr, if_pos (hready hr)]
      · rw [if_neg hr]
        split <;> omega
    | starting at_ => exact le_refl _
    | _ => exact le_refl _

/-! ## Fair runs -/

/-- A run in which the goroutines are scheduled, passes return and time advances. -/
structure FairRun (s : Scheduler) (tasks : List Task) (run : Nat → Run) : Prop where
  start : ∃ clock ctx, run 0 = begin_ tasks clock ctx
  step : ∀ n, Step s (run n) (run (n + 1))
  scheduled : ∀ n, (∀ m, n ≤ m → ∃ r, Turn s (run m) r) → ∃ m, n ≤ m ∧ Turn s (run m) (run (m + 1))
  returns : ∀ n, ∀ pass ∈ (run n).passes, ∃ m, n ≤ m ∧ pass ∉ (run m).passes
  time : ∀ time, ∃ n, time ≤ (run n).clock

/-- What keeps `Run` from going on: a pass that is not done, or a timer. -/
theorem blocked (h : Inv s tasks r) (hover : r.pc.over = false) :
    (∃ r', Turn s r r') ∨ r.passes ≠ [] ∨ ∃ deadline, r.pc = .waiting (some deadline) := by
  have hflying := h.flying
  have hplaced := h.placed
  cases hpc : r.pc with
  | top =>
    by_cases hbusy : r.busy
    · cases hctx : r.ctx with
      | none => exact .inl ⟨_, .goOn hpc hbusy hctx⟩
      | some err => exact .inl ⟨_, .stop hpc hbusy hctx⟩
    · exact .inl ⟨_, .finish hpc hbusy⟩
  | checked => exact .inl ⟨_, .look hpc⟩
  | starting now =>
    cases hready : s.ready r.active r.queue now with
    | false => exact .inl ⟨_, .started hpc hready⟩
    | true =>
      cases hqueue : r.queue with
      | nil => simp [Scheduler.ready, hqueue] at hready
      | cons item queue => exact .inl ⟨_, .start hpc hready hqueue⟩
  | arming wait => exact .inl ⟨_, .arm hpc⟩
  | handling pass => exact .inl ⟨s.settle id r pass, .settle hpc⟩
  | waiting timer =>
    cases timer with
    | some deadline => exact .inr (.inr ⟨deadline, rfl⟩)
    | none =>
      simp only [Scheduler.Placed, hpc] at hplaced
      simp only [hpc, Pc.counts] at hflying
      cases hcompleted : r.completed with
      | cons pass completed => exact .inl ⟨_, .receive hpc hcompleted⟩
      | nil =>
        refine .inr (.inl fun hempty => hplaced ?_)
        rw [← hflying, hempty, hcompleted]
        rfl
  | draining left err =>
    cases left with
    | zero => exact .inl ⟨_, .drained hpc⟩
    | succ left =>
      simp only [hpc, Pc.counts] at hflying
      cases hcompleted : r.completed with
      | cons pass completed => exact .inl ⟨_, .drain hpc hcompleted⟩
      | nil =>
        refine .inr (.inl fun hempty => ?_)
        rw [hempty, hcompleted] at hflying
        cases hflying
  | refused err | returned err | canceled err =>
    rw [hpc] at hover
    cases hover

/-- What a tick leaves alone. -/
theorem Tick.same (h : Tick r r') : r'.pc = r.pc ∧ r'.passes = r.passes ∧ r.clock ≤ r'.clock := by
  cases h with
  | clock hle => exact ⟨rfl, rfl, hle⟩
  | ctx => exact ⟨rfl, rfl, le_refl _⟩

theorem clock_settle (s : Scheduler) (r : Run) (pass : PassResult) (jitter : Int → Int) :
    (s.settle jitter r pass).clock = r.clock := by
  unfold Scheduler.settle
  dsimp only
  split <;> rfl

theorem Step.clock_le (h : Step s r r') : r.clock ≤ r'.clock := by
  cases h with
  | turn hturn =>
    cases hturn with
    | settle => exact (clock_settle s r _ _).ge
    | _ => exact le_refl _
  | pass hpass => cases hpass <;> exact le_refl _
  | tick htick => exact htick.same.2.2

namespace FairRun

variable {run : Nat → Run}

theorem clock_mono (h : FairRun s tasks run) {m : Nat} (hm : n ≤ m) : (run n).clock ≤ (run m).clock :=
  monotone_nat_of_le_succ (fun n => (h.step n).clock_le) hm

section
variable (haccepted : Accepted tasks) (h : FairRun s tasks run)
include haccepted h

theorem inv (n : Nat) : Inv s tasks (run n) := by
  induction n with
  | zero =>
    obtain ⟨clock, ctx, hstart⟩ := h.start
    rw [hstart]
    exact Inv.begin_ haccepted clock ctx
  | succ n ih => exact ih.step (h.step n)

theorem keeps (n : Nat) : s.measure (run (n + 1)) ≤ s.measure (run n) := by
  cases h.step n with
  | turn hturn => exact (hturn.lowers (h.inv haccepted n)).le
  | pass hpass => exact (hpass.lowers (h.inv haccepted n)).le
  | tick htick => exact htick.keeps

/-- While nothing lowers the measure, only the clock and the context move. -/
theorem still (hstill : ∀ m, n ≤ m → ¬s.measure (run (m + 1)) < s.measure (run m)) (m : Nat) (hm : n ≤ m) :
    Tick (run m) (run (m + 1)) := by
  cases h.step m with
  | turn hturn => exact absurd (hturn.lowers (h.inv haccepted m)) (hstill m hm)
  | pass hpass => exact absurd (hpass.lowers (h.inv haccepted m)) (hstill m hm)
  | tick htick => exact htick

end

theorem same (hticks : ∀ m, n ≤ m → Tick (run m) (run (m + 1))) (m : Nat) (hm : n ≤ m) :
    (run m).pc = (run n).pc ∧ (run m).passes = (run n).passes := by
  induction m, hm using Nat.le_induction with
  | base => exact ⟨rfl, rfl⟩
  | succ m hm ih =>
    obtain ⟨hpc, hpasses, -⟩ := (hticks m hm).same
    exact ⟨hpc.trans ih.1, hpasses.trans ih.2⟩

/-- `Run` returns. -/
theorem ends (haccepted : Accepted tasks) (h : FairRun s tasks run) : ∃ n, (run n).pc.over = true := by
  refine @eventually_of_lowered (fun n => s.measure (run n)) (fun n => (run n).pc.over = true) (h.keeps haccepted)
    fun n hnever => ?_
  by_contra hnone
  have hstill : ∀ m, n ≤ m → ¬s.measure (run (m + 1)) < s.measure (run m) := fun m hm hlt => hnone ⟨m, hm, hlt⟩
  have hticks := h.still haccepted hstill
  -- no goroutine of a pass is there, since it would go on
  have hpasses : (run n).passes = [] := by
    refine List.eq_nil_iff_forall_not_mem.2 fun pass hmem => ?_
    obtain ⟨m, hm, hgone⟩ := h.returns n pass hmem
    exact hgone ((same hticks m hm).2 ▸ hmem)
  have hnoTurn : ∀ k, n ≤ k → ¬∀ m, k ≤ m → ∃ r, Turn s (run m) r := by
    intro k hk hturns
    obtain ⟨m, hm, hturn⟩ := h.scheduled k hturns
    exact hstill m (hk.trans hm) (hturn.lowers (h.inv haccepted m))
  have hblocked : ∀ m, n ≤ m → (∃ r, Turn s (run m) r) ∨ ∃ deadline, (run n).pc = .waiting (some deadline) := by
    intro m hm
    obtain ⟨hpc, hsame⟩ := same hticks m hm
    rcases blocked (h.inv haccepted m) (Bool.eq_false_iff.2 (hnever m hm)) with hturn | hne | ⟨deadline, hwait⟩
    · exact .inl hturn
    · exact absurd (hsame.trans hpasses) hne
    · exact .inr ⟨deadline, hpc ▸ hwait⟩
  by_cases htimer : ∃ deadline, (run n).pc = .waiting (some deadline)
  · -- the timer fires once the clock is there
    obtain ⟨deadline, hwait⟩ := htimer
    obtain ⟨k, hk⟩ := h.time deadline
    refine hnoTurn (max n k) (le_max_left n k) fun m hm => ?_
    have hpc : (run m).pc = .waiting (some deadline) := by rw [(same hticks m ((le_max_left n k).trans hm)).1, hwait]
    exact ⟨_, .timer hpc (hk.trans (h.clock_mono ((le_max_right n k).trans hm)))⟩
  · exact hnoTurn n (le_refl n) fun m hm => (hblocked m hm).resolve_right htimer

end FairRun

/-! ## What callers of `Run` can count on -/

/-- The passes whose runner is called. -/
def Run.calling (r : Run) : List Pass := r.passes.filter fun pass => pass.stage.place = .calling

structure Limits (s : Scheduler) (tasks : List Task) (r : Run) : Prop where
  alone : (r.calling.map fun pass => pass.task.task.partition).Nodup
  few : r.calling.length ≤ s.maxConcurrent
  passes : ∀ partition, begun partition r.log ≤ s.maxPasses
  attempts : ∀ partition, failing partition r.log ≤ s.maxAttempts
  ready : ∀ partition readyAt at_, .began partition readyAt at_ ∈ r.log → readyAt ≤ at_
  total : r.summary.tasks = tasks.length
  ends : ∀ err, r.pc = .returned err → r.summary.completed + r.summary.failed + r.summary.deferred = r.summary.tasks ∧
    r.summary.passes = r.summary.completed + r.summary.failed + r.summary.deferred + r.summary.retries +
      r.summary.continuations
  drained : ∀ err, r.pc = .canceled err → r.passes = [] ∧ r.completed = []

theorem Inv.nothing_flies (h : Inv s tasks r) (hover : r.pc.over = true) : r.passes = [] ∧ r.completed = [] := by
  have hflying := h.flying
  have hcounts : r.pc.counts r.active = 0 := by
    cases hpc : r.pc with
    | refused | returned | canceled => rfl
    | _ =>
      rw [hpc] at hover
      cases hover
  rw [hcounts] at hflying
  exact ⟨List.eq_nil_of_length_eq_zero (by omega), List.eq_nil_of_length_eq_zero (by omega)⟩

theorem Inv.limits (h : Inv s tasks r) : Limits s tasks r where
  alone := by
    have hitems : (r.passes.map fun pass => pass.task.task.partition).Sublist
        (r.items.map fun item => item.1.task.partition) := by
      have hsub : (r.passes.map Pass.item).Sublist r.items :=
        (List.sublist_append_left _ _).trans (List.sublist_append_right _ _)
      have hmap := hsub.map fun item => item.1.task.partition
      rwa [List.map_map] at hmap
    exact (h.tracked.nodup.sublist hitems).sublist (List.filter_sublist.map _)
  few := by
    have hle : r.calling.length ≤ r.passes.length := List.length_filter_le _ _
    have hflying := h.flying
    have hfew := h.few
    omega
  passes partition := (h.tracked.limits partition).1
  attempts partition := (h.tracked.limits partition).2
  ready := h.began
  total := h.total
  ends err hpc := by
    obtain ⟨hpasses, hcompleted⟩ := h.nothing_flies (by rw [hpc]; rfl)
    have hqueue : r.queue = [] := by simpa only [Scheduler.Placed, hpc] using h.placed
    have hsettled := h.settled (by rw [hpc]; rfl)
    have hsum := h.passes (by rw [hpc]; rfl)
    have htotal := h.total
    simp only [Run.items, hqueue, hpasses, hcompleted, hpc] at hsettled
    exact ⟨hsettled.trans htotal.symm, hsum⟩
  drained err hpc := h.nothing_flies (by rw [hpc]; rfl)

end

namespace Sample

def scheduler : Scheduler where
  given := ⟨0, 0, 0, 0, 0, 0, 0⟩
  opts := ⟨8, 30000000000, 64, 5, 250000000, 30000000000, 10000000⟩
  made := rfl

def tasks : List Task := [⟨3, .reclaim⟩]

def item : ScheduledTask := ⟨⟨3, .reclaim⟩, 1, 0, 0, 0⟩

def first : Run := begin_ tasks 0 none

def started : Run := { first with pc := .waiting none, queue := [], active := 1, passes := [⟨item, .spawned⟩] }

def result : PassResult := ⟨item, .zero, none, 0⟩

def sent : Run := { started with
  passes := [], completed := [result], log := [.began 3 0 0, .ended 3 false] }

def settled : Run := scheduler.settle id { sent with completed := [], active := 0, pc := .handling result } result

/-- One pass that has no more work, and then only time goes on. -/
def run : Nat → Run
  | 0 => first
  | 1 => { first with pc := .checked }
  | 2 => { first with pc := .starting 0 }
  | 3 => { started with pc := .starting 0 }
  | 4 => started
  | 5 => { started with passes := [⟨item, .calling 0⟩], log := [.began 3 0 0] }
  | 6 => { started with passes := [⟨item, .finished 0 .zero none⟩], log := [.began 3 0 0, .ended 3 false] }
  | 7 => sent
  | 8 => { sent with completed := [], active := 0, pc := .handling result }
  | 9 => settled
  | n + 10 => { settled with pc := .returned none, clock := n }

theorem accepted : Accepted tasks := ⟨by decide, by decide⟩

end Sample

end ObjLog.Lifecycle
