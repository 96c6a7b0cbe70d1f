import ObjLog.Lifecycle.Scheduler
import Mathlib.Data.List.Nodup
/-!
# Runs of the lifecycle scheduler

Every task is in one place at a time: on the queue, with the goroutine of a pass,
in the channel, or in the hands of `Run`. What its counters say about the calls of
the runner depends on the place only. From this follow the limits on passes and
attempts and the sums of the summary.
-/

namespace ObjLog.Lifecycle

/-! ## What the runner saw of a partition -/

def Entry.partition : Entry → UInt32
  | began partition _ _ => partition
  | ended partition _ => partition

def Entry.begins (partition : UInt32) : Entry → Bool
  | began p _ _ => p = partition
  | ended _ _ => false

/-- How many calls began. -/
def begun (partition : UInt32) (log : List Entry) : Nat := log.countP (Entry.begins partition)

/-- How many failures in a row there are after one more entry. -/
def Entry.failing (partition : UInt32) (count : Nat) : Entry → Nat
  | began _ _ _ => count
  | ended p failed => if p = partition then (if failed then count + 1 else 0) else count

/-- How many calls failed since the last one that did not. -/
def failing (partition : UInt32) (log : List Entry) : Nat := log.foldl (Entry.failing partition) 0

variable {s : Scheduler} {tasks : List Task} {r r' : Run} {log : List Entry} {entry : Entry} {partition : UInt32} {now : Int}

theorem begun_append : begun partition (log ++ [entry]) = begun partition log + (entry.begins partition).toNat := by
  unfold begun
  rw [List.countP_append, List.countP_singleton]
  cases entry.begins partition <;> rfl

theorem failing_append : failing partition (log ++ [entry]) = entry.failing partition (failing partition log) := by
  unfold failing
  rw [List.foldl_append]
  rfl

theorem begun_other (h : entry.partition ≠ partition) : begun partition (log ++ [entry]) = begun partition log := by
  rw [begun_append]
  cases entry with
  | began p readyAt at_ => simp [Entry.begins, show p ≠ partition from h]
  | ended p failed => rfl

theorem failing_other (h : entry.partition ≠ partition) : failing partition (log ++ [entry]) = failing partition log := by
  rw [failing_append]
  cases entry with
  | began p readyAt at_ => rfl
  | ended p failed => simp [Entry.failing, show p ≠ partition from h]

/-! ## Where the tasks are -/

/-- The `Bool` says whether the pass failed. -/
inductive Place where
  | queued
  | spawned
  | calling
  | finished (failed : Bool)
  | sent (failed : Bool)
  | handled (failed : Bool)
deriving DecidableEq

abbrev Item := ScheduledTask × Place

def Stage.place : Stage → Place
  | spawned => .spawned
  | calling _ => .calling
  | finished _ _ err => .finished err.isSome

def Pass.item (pass : Pass) : Item := (pass.task, pass.stage.place)

def PassResult.item (place : Bool → Place) (pass : PassResult) : Item := (pass.task, place pass.err.isSome)

def Pc.handled : Pc → List PassResult
  | handling pass => [pass]
  | _ => []

def itemsOf (queue : List ScheduledTask) (passes : List Pass) (completed handled : List PassResult) : List Item :=
  queue.map (·, .queued) ++ (passes.map Pass.item ++
    (completed.map (PassResult.item .sent) ++ handled.map (PassResult.item .handled)))

def Run.items (r : Run) : List Item := itemsOf r.queue r.passes r.completed r.pc.handled

section
variable {queue : List ScheduledTask} {passes before after : List Pass} {completed handled : List PassResult}
  {pass : PassResult}

theorem itemsOf_push {item : ScheduledTask} : (itemsOf (push item queue) passes completed handled).Perm
    ((item, .queued) :: itemsOf queue passes completed handled) :=
  ((push_perm item queue).map _).append_right _

theorem itemsOf_pass {p : Pass} : (itemsOf queue (before ++ p :: after) completed handled).Perm
    (p.item :: itemsOf queue (before ++ after) completed handled) :=
  (((List.perm_middle.map _).append_right _).append_left _).trans List.perm_middle

theorem itemsOf_spawned {p : Pass} : (itemsOf queue (passes ++ [p]) completed handled).Perm
    (p.item :: itemsOf queue passes completed handled) := by
  have hpass : (itemsOf queue (passes ++ [p]) completed handled).Perm
      (p.item :: itemsOf queue (passes ++ []) completed handled) := itemsOf_pass
  rwa [List.append_nil] at hpass

theorem itemsOf_last : (itemsOf queue passes (completed ++ [pass]) handled).Perm
    (pass.item .sent :: itemsOf queue passes completed handled) := by
  have hlast : ((completed ++ [pass]).map (PassResult.item .sent)).Perm
      (pass.item .sent :: completed.map (PassResult.item .sent)) :=
    (List.perm_append_singleton pass completed).map _
  exact ((((hlast.append_right _).append_left _).trans List.perm_middle).append_left _).trans List.perm_middle

theorem itemsOf_first : (itemsOf queue passes (pass :: completed) handled).Perm
    (pass.item .sent :: itemsOf queue passes completed handled) :=
  (List.perm_middle.append_left _).trans List.perm_middle

theorem itemsOf_handled : (itemsOf queue passes completed [pass]).Perm
    (pass.item .handled :: itemsOf queue passes completed []) :=
  (((List.perm_middle.append_left _).trans List.perm_middle).append_left _).trans List.perm_middle

theorem items_queue {item : ScheduledTask} (h : r.queue = item :: queue) :
    r.items = (item, .queued) :: itemsOf queue r.passes r.completed r.pc.handled := by
  rw [Run.items, h]
  rfl

theorem items_passes {p : Pass} (h : r.passes = before ++ p :: after) :
    r.items.Perm (p.item :: itemsOf r.queue (before ++ after) r.completed r.pc.handled) := by
  rw [Run.items, h]
  exact itemsOf_pass

theorem items_completed (h : r.completed = pass :: completed) :
    r.items.Perm (pass.item .sent :: itemsOf r.queue r.passes completed r.pc.handled) := by
  rw [Run.items, h]
  exact itemsOf_first

/-- The items while `Run` holds the result of a pass. -/
theorem items_handling (hpc : r.pc = .handling pass) : r.items.Perm
    (pass.item .handled :: itemsOf r.queue r.passes r.completed []) := by
  rw [Run.items, hpc]
  exact itemsOf_handled

end

/-- What the counters of a task say about the calls of the runner. -/
def Counted (log : List Entry) (task : ScheduledTask) : Place → Prop
  | .queued | .spawned =>
    begun task.task.partition log = task.passes ∧ failing task.task.partition log + 1 = task.attempt
  | .calling => begun task.task.partition log = task.passes + 1 ∧ failing task.task.partition log + 1 = task.attempt
  | .finished failed | .sent failed | .handled failed => begun task.task.partition log = task.passes + 1 ∧
      failing task.task.partition log = if failed then task.attempt else 0

structure Fit (s : Scheduler) (log : List Entry) (item : Item) : Prop where
  passes : item.1.passes < s.maxPasses
  attempt : 1 ≤ item.1.attempt ∧ item.1.attempt ≤ s.maxAttempts
  counted : Counted log item.1 item.2

/-- Each task is in one place, its counters are right, and no partition is over the limits. -/
structure Tracked (s : Scheduler) (log : List Entry) (items : List Item) : Prop where
  nodup : (items.map fun item => item.1.task.partition).Nodup
  fits : ∀ item ∈ items, Fit s log item
  limits : ∀ partition, begun partition log ≤ s.maxPasses ∧ failing partition log ≤ s.maxAttempts

theorem Counted.other {task : ScheduledTask} {place : Place} (h : Counted log task place)
    (hother : entry.partition ≠ task.task.partition) : Counted (log ++ [entry]) task place := by
  unfold Counted at h ⊢
  rw [begun_other hother, failing_other hother]
  exact h

namespace Tracked

variable {items items' : List Item} {task : ScheduledTask} {place place' : Place}

theorem perm (h : Tracked s log items) (hperm : items.Perm items') : Tracked s log items' where
  nodup := (hperm.map _).nodup_iff.1 h.nodup
  fits item hmem := h.fits item (hperm.mem_iff.2 hmem)
  limits := h.limits

section
variable (h : Tracked s log ((task, place) :: items))
include h

theorem tail : Tracked s log items where
  nodup := (List.nodup_cons.1 h.nodup).2
  fits item hmem := h.fits item (List.mem_cons_of_mem _ hmem)
  limits := h.limits

/-- The first task goes on, and nothing is called. -/
theorem move {task' : ScheduledTask} (hsame : task'.task = task.task)
    (hfit : Fit s log (task, place) → Fit s log (task', place')) : Tracked s log ((task', place') :: items) where
  nodup := by simpa [hsame] using h.nodup
  fits := List.forall_mem_cons.2 ⟨hfit (h.fits _ List.mem_cons_self), (tail h).fits⟩
  limits := h.limits

/-- The first task goes on with a call of the runner. -/
theorem call (hentry : entry.partition = task.task.partition)
    (hcounted : Counted (log ++ [entry]) task place')
    (hlimits : begun task.task.partition (log ++ [entry]) ≤ s.maxPasses ∧
      failing task.task.partition (log ++ [entry]) ≤ s.maxAttempts) :
    Tracked s (log ++ [entry]) ((task, place') :: items) where
  nodup := h.nodup
  fits := by
    have hfit := h.fits _ List.mem_cons_self
    refine List.forall_mem_cons.2 ⟨⟨hfit.passes, hfit.attempt, hcounted⟩, fun item hmem => ?_⟩
    have hother : entry.partition ≠ item.1.task.partition := by
      rw [hentry]
      exact fun heq => (List.nodup_cons.1 h.nodup).1 (List.mem_map.2 ⟨item, hmem, heq.symm⟩)
    have hitem := (tail h).fits item hmem
    exact ⟨hitem.passes, hitem.attempt, hitem.counted.other hother⟩
  limits p := by
    by_cases hp : entry.partition = p
    · rw [← hp, hentry]
      exact hlimits
    · rw [begun_other hp, failing_other hp]
      exact h.limits p

end

/-- A call of the runner begins. -/
theorem began {readyAt at_ : Int} (h : Tracked s log ((task, .spawned) :: items)) :
    Tracked s (log ++ [.began task.task.partition readyAt at_]) ((task, .calling) :: items) := by
  have hfit := h.fits _ List.mem_cons_self
  obtain ⟨hbegun, hfailing⟩ := hfit.counted
  have hb : begun task.task.partition (log ++ [.began task.task.partition readyAt at_]) = task.passes + 1 := by
    rw [begun_append, hbegun]
    simp [Entry.begins]
  have hf : failing task.task.partition (log ++ [.began task.task.partition readyAt at_]) =
      failing task.task.partition log := failing_append
  refine h.call rfl ⟨hb, by rw [hf, hfailing]⟩ ?_
  rw [hb, hf]
  exact ⟨hfit.passes, (h.limits _).2⟩

/-- A call of the runner returns. -/
theorem ended {failed : Bool} (h : Tracked s log ((task, .calling) :: items)) :
    Tracked s (log ++ [.ended task.task.partition failed]) ((task, .finished failed) :: items) := by
  have hfit := h.fits _ List.mem_cons_self
  obtain ⟨hbegun, hfailing⟩ := hfit.counted
  have hb : begun task.task.partition (log ++ [.ended task.task.partition failed]) = task.passes + 1 := by
    rw [begun_append, hbegun]
    rfl
  have hf : failing task.task.partition (log ++ [.ended task.task.partition failed]) =
      if failed then task.attempt else 0 := by
    rw [failing_append, ← hfailing]
    simp [Entry.failing]
  refine h.call rfl ⟨hb, hf⟩ ?_
  rw [hb, hf]
  refine ⟨hfit.passes, ?_⟩
  have := hfit.attempt.2
  dsimp only at this
  split <;> omega

end Tracked

/-! ## The invariant -/

/-- How many passes `Run` waits for. -/
def Pc.counts (active : Nat) : Pc → Nat
  | draining left _ => left
  | refused _ | returned _ | canceled _ => 0
  | _ => active

def Pc.stopping : Pc → Bool
  | draining _ _ | refused _ | canceled _ => true
  | _ => false

def ScheduleResult.settled (sum : ScheduleResult) : Nat := sum.completed + sum.failed + sum.deferred

/-- A pass could start at this time. -/
def Scheduler.Due (s : Scheduler) (r : Run) (time : Int) : Prop :=
  ∃ item queue, r.queue = item :: queue ∧ r.active < s.maxConcurrent ∧ item.readyAt ≤ time

def Scheduler.Placed (s : Scheduler) (r : Run) : Prop :=
  match r.pc with
  | .checked => r.busy
  | .starting now => r.busy ∧ now ≤ r.clock
  | .arming wait => s.Due r (r.clock + wait)
  | .waiting (some deadline) => s.Due r deadline
  | .waiting none => r.active ≠ 0
  | .returned _ => r.queue = []
  | _ => True

structure Inv (s : Scheduler) (tasks : List Task) (r : Run) : Prop where
  tracked : Tracked s r.log r.items
  flying : r.passes.length + r.completed.length = r.pc.counts r.active
  few : r.pc.counts r.active ≤ s.maxConcurrent
  ready : ∀ task, ⟨task, .spawned⟩ ∈ r.passes → task.readyAt ≤ r.clock
  began : ∀ partition readyAt at_, .began partition readyAt at_ ∈ r.log → readyAt ≤ at_
  passes : r.pc.stopping = false →
    r.summary.passes = r.summary.settled + r.summary.retries + r.summary.continuations
  total : r.summary.tasks = tasks.length
  settled : r.pc.stopping = false → r.summary.settled + r.items.length = tasks.length
  placed : s.Placed r

namespace Inv

section
variable {pass : PassResult}

variable (h : Inv s tasks r)
include h

/-- A step of `Run` that only moves on. -/
theorem pc {pc : Pc} (hhandled : pc.handled = r.pc.handled)
    (hcounts : pc.counts r.active = r.pc.counts r.active) (hstopping : pc.stopping = false → r.pc.stopping = false)
    (hplaced : s.Placed { r with pc := pc }) : Inv s tasks { r with pc := pc } := by
  have hitems : ({ r with pc := pc } : Run).items = r.items := by simp only [Run.items, hhandled]
  exact {
    tracked := by rw [hitems]; exact h.tracked
    flying := h.flying.trans hcounts.symm
    few := hcounts.trans_le h.few
    ready := h.ready
    began := h.began
    passes := fun hs => h.passes (hstopping hs)
    total := h.total
    settled := fun hs => by rw [hitems]; exact h.settled (hstopping hs)
    placed := hplaced }

theorem start {item : ScheduledTask} {queue : List ScheduledTask}
    (hpc : r.pc = .starting now) (hready : s.ready r.active r.queue now = true) (hqueue : r.queue = item :: queue) :
    Inv s tasks { r with queue := queue, active := r.active + 1, passes := r.passes ++ [⟨item, .spawned⟩] } := by
  simp only [Scheduler.ready, hqueue, List.head?_cons, Option.any_some, Bool.and_eq_true, decide_eq_true_eq] at hready
  have hplaced := h.placed
  simp only [Scheduler.Placed, hpc] at hplaced
  have hflying := h.flying
  simp only [hpc, Pc.counts] at hflying
  have hold := items_queue hqueue
  have hnew : (itemsOf queue (r.passes ++ [⟨item, .spawned⟩]) r.completed r.pc.handled).Perm
      ((item, .spawned) :: itemsOf queue r.passes r.completed r.pc.handled) := itemsOf_spawned
  exact {
    tracked := by
      have htracked := h.tracked
      rw [hold] at htracked
      have hmoved : Tracked s r.log ((item, .spawned) :: itemsOf queue r.passes r.completed r.pc.handled) :=
        htracked.move rfl fun hfit => ⟨hfit.passes, hfit.attempt, hfit.counted⟩
      exact hmoved.perm hnew.symm
    flying := by
      simp only [hpc, Pc.counts, List.length_append, List.length_singleton]
      omega
    few := by
      simp only [hpc, Pc.counts]
      omega
    ready := by
      intro task hmem
      rcases List.mem_append.1 hmem with hmem | hmem
      · exact h.ready task hmem
      · cases List.mem_singleton.1 hmem
        exact hready.2.trans hplaced.2
    began := h.began
    passes := h.passes
    total := h.total
    settled := fun hs => by
      have hsettled := h.settled hs
      rw [hold, List.length_cons] at hsettled
      rw [Run.items, hnew.length_eq, List.length_cons]
      exact hsettled
    placed := by
      simp only [Scheduler.Placed, hpc]
      exact ⟨.inr (Nat.succ_ne_zero _), hplaced.2⟩ }

theorem receive {timer : Option Int} {completed : List PassResult}
    (hpc : r.pc = .waiting timer) (hcompleted : r.completed = pass :: completed) :
    Inv s tasks { r with completed := completed, active := r.active - 1, pc := .handling pass } := by
  have hflying := h.flying
  have hfew := h.few
  simp only [hpc, Pc.counts, hcompleted, List.length_cons] at hflying hfew
  have hold : r.items.Perm (pass.item .sent :: itemsOf r.queue r.passes completed []) := by
    have := items_completed hcompleted
    rwa [hpc] at this
  have hnew : (itemsOf r.queue r.passes completed [pass]).Perm
      (pass.item .handled :: itemsOf r.queue r.passes completed []) := itemsOf_handled
  have hrunning : r.pc.stopping = false := by rw [hpc]; rfl
  exact {
    tracked := by
      have hmoved : Tracked s r.log (pass.item .handled :: itemsOf r.queue r.passes completed []) :=
        (h.tracked.perm hold).move rfl fun hfit => ⟨hfit.passes, hfit.attempt, hfit.counted⟩
      exact hmoved.perm hnew.symm
    flying := by
      simp only [Pc.counts]
      omega
    few := by
      simp only [Pc.counts]
      omega
    ready := h.ready
    began := h.began
    passes := fun _ => h.passes hrunning
    total := h.total
    settled := fun _ => by
      have hsettled := h.settled hrunning
      rw [hold.length_eq] at hsettled
      rw [Run.items]
      dsimp only [Pc.handled]
      rw [hnew.length_eq]
      exact hsettled
    placed := trivial }

/-- The task is settled. -/
theorem dropped {sum : ScheduleResult} {failures : List Err} {observed : List SchedulerEvent}
    (hpc : r.pc = .handling pass) (htotal : sum.tasks = r.summary.tasks) (hpasses : sum.passes = r.summary.passes + 1)
    (hsettled : sum.settled = r.summary.settled + 1) (hretries : sum.retries = r.summary.retries)
    (hcontinuations : sum.continuations = r.summary.continuations) :
    Inv s tasks { r with pc := .top, summary := sum, failures := failures, observed := observed } := by
  have hold := items_handling hpc
  have hrunning : r.pc.stopping = false := by rw [hpc]; rfl
  exact {
    tracked := (h.tracked.perm hold).tail
    flying := by rw [h.flying, hpc]; rfl
    few := by have := h.few; rwa [hpc] at this
    ready := h.ready
    began := h.began
    passes := fun _ => by
      have := h.passes hrunning
      dsimp only
      omega
    total := htotal.trans h.total
    settled := fun _ => by
      have := h.settled hrunning
      rw [hold.length_eq, List.length_cons] at this
      simp only [Run.items, Pc.handled]
      omega
    placed := trivial }

/-- The task is put back on the queue. -/
theorem requeued {sum : ScheduleResult} {observed : List SchedulerEvent} {item : ScheduledTask} {order : UInt64}
    (hpc : r.pc = .handling pass) (htask : item.task = pass.task.task)
    (hpass : item.passes = pass.task.passes + 1) (hroom : item.passes < s.maxPasses)
    (hattempt : item.attempt ≤ s.maxAttempts)
    (hcount : (if pass.err.isSome then pass.task.attempt else 0) + 1 = item.attempt)
    (htotal : sum.tasks = r.summary.tasks) (hpasses : sum.passes = r.summary.passes + 1)
    (hsettled : sum.settled = r.summary.settled)
    (hagain : sum.retries + sum.continuations = r.summary.retries + r.summary.continuations + 1) : Inv s tasks { r with
      pc := .top, queue := push item r.queue, order := order, summary := sum, observed := observed } := by
  have hold := items_handling hpc
  have hrunning : r.pc.stopping = false := by rw [hpc]; rfl
  have htracked := h.tracked.perm hold
  obtain ⟨hbegun, hfailing⟩ := (htracked.fits _ List.mem_cons_self).counted
  dsimp only [PassResult.item] at hbegun hfailing
  have hnew : (itemsOf (push item r.queue) r.passes r.completed []).Perm
      ((item, .queued) :: itemsOf r.queue r.passes r.completed []) := itemsOf_push
  have hmoved : Tracked s r.log ((item, .queued) :: itemsOf r.queue r.passes r.completed []) := by
    refine htracked.move htask fun _ => ⟨hroom, ⟨by dsimp only; omega, hattempt⟩, ?_, ?_⟩
    · rw [htask, hbegun, hpass]
    · rw [htask, hfailing, hcount]
  exact {
    tracked := hmoved.perm hnew.symm
    flying := by rw [h.flying, hpc]; rfl
    few := by have := h.few; rwa [hpc] at this
    ready := h.ready
    began := h.began
    passes := fun _ => by
      have := h.passes hrunning
      dsimp only
      omega
    total := htotal.trans h.total
    settled := fun _ => by
      have := h.settled hrunning
      rw [hold.length_eq, List.length_cons] at this
      simp only [Run.items, Pc.handled]
      rw [hnew.length_eq, List.length_cons]
      omega
    placed := trivial }

theorem settle {jitter : Int → Int} (hpc : r.pc = .handling pass) :
    Inv s tasks (s.settle jitter r pass) := by
  obtain ⟨-, hmax, hattempts⟩ := s.limits_pos
  unfold Scheduler.settle Scheduler.verdict
  dsimp only
  cases herr : pass.err with
  | none =>
    dsimp only
    by_cases hmore : pass.result.hasMore = false
    · rw [if_pos hmore]
      exact h.dropped hpc rfl rfl (by simp only [ScheduleResult.settled]; omega) rfl rfl
    · rw [if_neg hmore]
      by_cases hpasses : pass.task.passes + 1 ≥ s.maxPasses
      · rw [if_pos hpasses]
        exact h.dropped hpc rfl rfl (by simp only [ScheduleResult.settled]; omega) rfl rfl
      · rw [if_neg hpasses]
        exact h.requeued hpc rfl rfl (by dsimp only; omega) (by dsimp only; omega) (by rw [herr]; rfl) rfl rfl rfl
          (by dsimp only; omega)
  | some err =>
    dsimp only
    by_cases hlimit : pass.task.attempt ≥ s.maxAttempts ∨ pass.task.passes + 1 ≥ s.maxPasses
    · rw [if_pos hlimit]
      exact h.dropped hpc rfl rfl (by simp only [ScheduleResult.settled]; omega) rfl rfl
    · rw [if_neg hlimit]
      exact h.requeued hpc rfl rfl (by dsimp only; omega) (by dsimp only; omega) (by rw [herr]; rfl) rfl rfl rfl
        (by dsimp only; omega)

theorem drain {left : Nat} {err : Err} {completed : List PassResult}
    (hpc : r.pc = .draining (left + 1) err) (hcompleted : r.completed = pass :: completed) :
    Inv s tasks { r.drain pass with completed := completed, pc := .draining left err } := by
  have hold : r.items.Perm (pass.item .sent :: itemsOf r.queue r.passes completed []) := by
    have := items_completed hcompleted
    rwa [hpc] at this
  have hflying := h.flying
  have hfew := h.few
  simp only [hpc, Pc.counts, hcompleted, List.length_cons] at hflying hfew
  exact {
    tracked := (h.tracked.perm hold).tail
    flying := by simp only [Pc.counts, Run.drain]; omega
    few := by simp only [Pc.counts]; omega
    ready := h.ready
    began := h.began
    passes := nofun
    total := h.total
    settled := nofun
    placed := trivial }

end

/-! ### Passes -/

section
variable {before after : List Pass} {p p' : Pass}

/-- The goroutine of a pass goes on. -/
theorem passStep {log : List Entry} (h : Inv s tasks r) (hpasses : r.passes = before ++ p :: after)
    (htracked : Tracked s r.log (p.item :: itemsOf r.queue (before ++ after) r.completed r.pc.handled) →
      Tracked s log (p'.item :: itemsOf r.queue (before ++ after) r.completed r.pc.handled))
    (hstage : p'.stage ≠ .spawned)
    (hbegan : ∀ partition readyAt at_, .began partition readyAt at_ ∈ log → readyAt ≤ at_) :
    Inv s tasks { r with passes := before ++ p' :: after, log := log } := by
  have hold := items_passes hpasses
  have hnew : (itemsOf r.queue (before ++ p' :: after) r.completed r.pc.handled).Perm
      (p'.item :: itemsOf r.queue (before ++ after) r.completed r.pc.handled) := itemsOf_pass
  refine { h with
    tracked := (htracked (h.tracked.perm hold)).perm hnew.symm
    flying := ?_
    ready := fun task hmem => ?_
    began := hbegan
    settled := fun hs => ?_ }
  · have := h.flying
    simp only [hpasses, List.length_append, List.length_cons] at this ⊢
    exact this
  · refine h.ready task ?_
    rw [hpasses]
    rcases List.mem_append.1 hmem with hmem | hmem
    · exact List.mem_append_left _ hmem
    · rcases List.mem_cons.1 hmem with heq | hmem
      · exact absurd (congrArg Pass.stage heq.symm) hstage
      · exact List.mem_append_right _ (List.mem_cons_of_mem _ hmem)
  · have := h.settled hs
    rw [hold.length_eq] at this
    rw [Run.items, hnew.length_eq]
    exact this

/-- A pass that returned is in the channel. -/
theorem send {task : ScheduledTask} {started : Int} {result : Result} {err : Option Err} (h : Inv s tasks r)
    (hpasses : r.passes = before ++ ⟨task, .finished started result err⟩ :: after) : Inv s tasks { r with
      passes := before ++ after, completed := r.completed ++ [⟨task, result, err, now⟩] } := by
  have hold : r.items.Perm
      ((task, .finished err.isSome) :: itemsOf r.queue (before ++ after) r.completed r.pc.handled) := items_passes hpasses
  have hnew : (itemsOf r.queue (before ++ after) (r.completed ++ [⟨task, result, err, now⟩]) r.pc.handled).Perm
      ((task, .sent err.isSome) :: itemsOf r.queue (before ++ after) r.completed r.pc.handled) := itemsOf_last
  have hmoved : Tracked s r.log ((task, .sent err.isSome) :: itemsOf r.queue (before ++ after) r.completed
      r.pc.handled) := (h.tracked.perm hold).move rfl fun hfit => ⟨hfit.passes, hfit.attempt, hfit.counted⟩
  refine { h with
    tracked := hmoved.perm hnew.symm
    flying := ?_
    ready := fun task hmem => h.ready task ?_
    settled := fun hs => ?_ }
  · have := h.flying
    simp only [hpasses, List.length_append, List.length_cons, List.length_nil] at this ⊢
    omega
  · rw [hpasses]
    rcases List.mem_append.1 hmem with hmem | hmem
    · exact List.mem_append_left _ hmem
    · exact List.mem_append_right _ (List.mem_cons_of_mem _ hmem)
  · have := h.settled hs
    rw [hold.length_eq] at this
    rw [Run.items, hnew.length_eq]
    exact this

theorem pass (h : Inv s tasks r) (hstep : PassStep s r r') : Inv s tasks r' := by
  cases hstep with
  | @call before after task hpasses =>
    refine h.passStep hpasses Tracked.began (by simp) fun partition readyAt at_ hmem => ?_
    rcases List.mem_append.1 hmem with hmem | hmem
    · exact h.began partition readyAt at_ hmem
    · cases List.mem_singleton.1 hmem
      exact h.ready task (by rw [hpasses]; exact List.mem_append_right _ List.mem_cons_self)
  | return_ hpasses =>
    refine h.passStep hpasses Tracked.ended (by simp) fun partition readyAt at_ hmem => ?_
    rcases List.mem_append.1 hmem with hmem | hmem
    · exact h.began partition readyAt at_ hmem
    · cases List.mem_singleton.1 hmem
  | send hpasses _ => exact h.send hpasses

end

/-! ### Runs -/

theorem armed_cases (s : Scheduler) (r : Run) :
    (s.armed r = .waiting none ∧ (r.queue = [] ∨ s.maxConcurrent ≤ r.active)) ∨
    ∃ item queue, r.queue = item :: queue ∧ r.active < s.maxConcurrent ∧
      s.armed r = .arming (max 0 (item.readyAt - r.clock)) := by
  unfold Scheduler.armed
  cases hqueue : r.queue with
  | nil => exact .inl ⟨rfl, .inl rfl⟩
  | cons item queue =>
    by_cases hroom : r.active < s.maxConcurrent
    · exact .inr ⟨item, queue, rfl, hroom, if_pos hroom⟩
    · exact .inl ⟨if_neg hroom, .inr (Nat.le_of_not_lt hroom)⟩

theorem turn (h : Inv s tasks r) (hturn : Turn s r r') : Inv s tasks r' := by
  have hplaced := h.placed
  cases hturn with
  | finish hpc hidle =>
    obtain ⟨hqueue, hactive⟩ := not_or.1 hidle
    exact h.pc (by rw [hpc]; rfl) (by rw [hpc]; exact (not_not.1 hactive).symm) (by rw [hpc]; exact id) (not_not.1 hqueue)
  | stop hpc | done hpc | drained hpc => exact h.pc (by rw [hpc]; rfl) (by rw [hpc]; rfl) nofun trivial
  | goOn hpc hbusy hctx => exact h.pc (by rw [hpc]; rfl) (by rw [hpc]; rfl) (by rw [hpc]; exact id) hbusy
  | look hpc =>
    simp only [Scheduler.Placed, hpc] at hplaced
    exact h.pc (by rw [hpc]; rfl) (by rw [hpc]; rfl) (by rw [hpc]; exact id) ⟨hplaced, le_refl _⟩
  | start hpc hready hqueue => exact h.start hpc hready hqueue
  | started hpc hready =>
    simp only [Scheduler.Placed, hpc] at hplaced
    have hmax := s.limits_pos.1
    rcases armed_cases s r with ⟨harmed, hfull⟩ | ⟨item, queue, hqueue, hroom, harmed⟩
    · rw [harmed]
      refine h.pc (by rw [hpc]; rfl) (by rw [hpc]; rfl) (by rw [hpc]; exact id) ?_
      rcases hfull with hempty | hfull
      · exact hplaced.1.resolve_left fun hne => hne hempty
      · exact Nat.ne_of_gt (hmax.trans_le hfull)
    · rw [harmed]
      have hdue : item.readyAt ≤ r.clock + max 0 (item.readyAt - r.clock) := by omega
      exact h.pc (by rw [hpc]; rfl) (by rw [hpc]; rfl) (by rw [hpc]; exact id) ⟨item, queue, hqueue, hroom, hdue⟩
  | arm hpc =>
    simp only [Scheduler.Placed, hpc] at hplaced
    exact h.pc (by rw [hpc]; rfl) (by rw [hpc]; rfl) (by rw [hpc]; exact id) hplaced
  | receive hpc hcompleted => exact h.receive hpc hcompleted
  | settle hpc => exact h.settle hpc
  | timer hpc _ => exact h.pc (by rw [hpc]; rfl) (by rw [hpc]; rfl) (by rw [hpc]; exact id) trivial
  | drain hpc hcompleted => exact h.drain hpc hcompleted

theorem tick (h : Inv s tasks r) (htick : Tick r r') : Inv s tasks r' := by
  cases htick with
  | @clock now hle =>
    refine { h with ready := fun task hmem => (h.ready task hmem).trans hle, placed := ?_ }
    have hplaced := h.placed
    simp only [Scheduler.Placed] at hplaced ⊢
    cases hpc : r.pc with
    | starting now =>
      simp only [hpc] at hplaced
      exact ⟨hplaced.1, hplaced.2.trans hle⟩
    | arming wait =>
      simp only [hpc] at hplaced
      obtain ⟨item, queue, hqueue, hroom, hdue⟩ := hplaced
      exact ⟨item, queue, hqueue, hroom, hdue.trans (Int.add_le_add_right hle wait)⟩
    | waiting timer =>
      simp only [hpc] at hplaced
      cases timer <;> exact hplaced
    | _ =>
      simp only [hpc] at hplaced
      exact hplaced
  | ctx => exact { h with }

theorem step (h : Inv s tasks r) (hstep : Step s r r') : Inv s tasks r' := by
  cases hstep with
  | turn hturn => exact h.turn hturn
  | pass hpass => exact h.pass hpass
  | tick htick => exact h.tick htick

end Inv

/-! ## The first state -/

/-- Tasks that `Run` accepts. -/
def Accepted (tasks : List Task) : Prop :=
  (tasks.map Task.partition).Nodup ∧ ∀ task ∈ tasks, task.operation.valid = true

theorem initialQueueFrom_ok {i : Nat} {seen : List UInt32} {tasks : List Task}
    (hnodup : (tasks.map Task.partition).Nodup) (hvalid : ∀ task ∈ tasks, task.operation.valid = true)
    (hseen : ∀ task ∈ tasks, task.partition ∉ seen) :
    ∃ queue, initialQueueFrom now i seen tasks = .ok queue ∧ queue.map ScheduledTask.task = tasks ∧
      ∀ item ∈ queue, item.attempt = 1 ∧ item.passes = 0 := by
  induction tasks generalizing i seen with
  | nil => exact ⟨[], rfl, rfl, nofun⟩
  | cons task tasks ih =>
    obtain ⟨hfirst, hnodup⟩ := List.nodup_cons.1 hnodup
    obtain ⟨hop, hvalid⟩ := List.forall_mem_cons.1 hvalid
    obtain ⟨hnew, hseen⟩ := List.forall_mem_cons.1 hseen
    have hseen' : ∀ other ∈ tasks, other.partition ∉ task.partition :: seen := by
      intro other hmem
      rw [List.mem_cons, not_or]
      exact ⟨fun heq => hfirst (heq ▸ List.mem_map_of_mem hmem), hseen other hmem⟩
    obtain ⟨queue, hok, hmap, hitems⟩ := ih (i := i + 1) hnodup hvalid hseen'
    refine ⟨⟨task, 1, 0, now, UInt64.ofNat i⟩ :: queue, ?_, by rw [List.map_cons, hmap],
      List.forall_mem_cons.2 ⟨⟨rfl, rfl⟩, hitems⟩⟩
    rw [initialQueueFrom, failIf, if_neg (by rw [hop]; decide), failIf, if_neg hnew]
    simp only [bind, Except.bind, hok, pure, Except.pure]

theorem initialQueue_ok (h : Accepted tasks) (now : Int) : ∃ queue, initialQueue now tasks = .ok queue ∧
    queue.map ScheduledTask.task = tasks ∧ ∀ item ∈ queue, item.attempt = 1 ∧ item.passes = 0 :=
  initialQueueFrom_ok h.1 h.2 fun _ _ => List.not_mem_nil

theorem Inv.begin_ (h : Accepted tasks) (clock : Int) (ctx : Option Err) : Inv s tasks (begin_ tasks clock ctx) := by
  obtain ⟨queue, hok, hmap, hitems⟩ := initialQueue_ok h clock
  obtain ⟨hconcurrent, hpasses, hattempts⟩ := s.limits_pos
  have hlength : queue.length = tasks.length := by rw [← hmap, List.length_map]
  have hpc : (Lifecycle.begin_ tasks clock ctx).pc = if tasks = [] then .returned none else .top := by
    simp only [Lifecycle.begin_, hok]
  have hqueue : (Lifecycle.begin_ tasks clock ctx).queue = queue := by
    simp only [Lifecycle.begin_, hok]
  have hhandled : (Lifecycle.begin_ tasks clock ctx).pc.handled = [] := by
    rw [hpc]
    split <;> rfl
  have hcounts : (Lifecycle.begin_ tasks clock ctx).pc.counts 0 = 0 := by
    rw [hpc]
    split <;> rfl
  have hitemsEq : (Lifecycle.begin_ tasks clock ctx).items = queue.map (·, .queued) := by
    rw [Run.items, hqueue, hhandled]
    exact List.append_nil _
  refine {
    tracked := ⟨?_, ?_, fun _ => ⟨Nat.zero_le _, Nat.zero_le _⟩⟩
    flying := hcounts.symm
    few := hcounts.trans_le (Nat.zero_le _)
    ready := nofun
    began := nofun
    passes := fun _ => rfl
    total := rfl
    settled := fun _ => ?_
    placed := ?_ }
  · rw [hitemsEq, List.map_map]
    have hpartitions : queue.map ((fun item : Item => item.1.task.partition) ∘ fun item => (item, Place.queued)) =
        tasks.map Task.partition := by
      rw [← hmap, List.map_map]
      rfl
    rw [hpartitions]
    exact h.1
  · rw [hitemsEq]
    intro item hmem
    obtain ⟨task, htask, rfl⟩ := List.mem_map.1 hmem
    obtain ⟨hattempt, hpass⟩ := hitems task htask
    exact ⟨by dsimp only; omega, ⟨by dsimp only; omega, by dsimp only; omega⟩, hpass.symm, hattempt.symm⟩
  · rw [hitemsEq, List.length_map, hlength]
    exact Nat.zero_add _
  · unfold Scheduler.Placed
    rw [hpc, hqueue]
    by_cases hempty : tasks = []
    · rw [if_pos hempty]
      exact List.eq_nil_of_length_eq_zero (by rw [hlength, hempty]; rfl)
    · rw [if_neg hempty]
      trivial

theorem Reaches.inv (haccepted : Accepted tasks) (h : Reaches s tasks r) : Inv s tasks r := by
  induction h with
  | start => exact Inv.begin_ haccepted _ _
  | step _ hstep ih => exact ih.step hstep

end ObjLog.Lifecycle
