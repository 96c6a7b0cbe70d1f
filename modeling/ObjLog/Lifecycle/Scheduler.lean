import ObjLog.Lifecycle.Types
/-!
# The lifecycle scheduler, `internal/lifecycle/scheduler.go`

One call of `Run`: the goroutine of the caller, which starts passes and settles
their results, and the goroutines of the passes. A step is what one goroutine does
between two looks at the clock, the context or a channel.

Times and durations are nanoseconds. The queue is kept in the order of `Less`, as
far as `container/heap` shows it. Floating point is left out: `jitter` is what the
random factor of `retryDelay` makes of a delay. The log is history: no step reads it.
-/

namespace ObjLog.Lifecycle

inductive Operation where
  | reclaim
  | scrub
  | other (number : Nat)
deriving DecidableEq, Repr

def Operation.text : Operation → String
  | reclaim => "reclaim"
  | scrub => "scrub"
  | other number => s!"operation({number})"

def Operation.number : Operation → Nat
  | reclaim => 0
  | scrub => 1
  | other number => number

def Operation.valid (o : Operation) : Bool := o = .reclaim || o = .scrub

structure Task where
  partition : UInt32
  operation : Operation
deriving DecidableEq, Repr

/-! ## Options -/

structure SchedulerOptions where
  maxConcurrentPartitions : Int
  partitionRunTimeout : Int
  maxPassesPerTask : Int
  maxAttempts : Int
  retryInitialBackoff : Int
  retryMaxBackoff : Int
  continuationDelay : Int
deriving DecidableEq, Repr

def newScheduler (opts : SchedulerOptions) : Except Err SchedulerOptions := do
  failIf (opts.maxConcurrentPartitions < 0) (invalidOptions "negative max concurrent partitions")
  failIf (opts.partitionRunTimeout < 0) (invalidOptions "negative partition run timeout")
  failIf (opts.maxPassesPerTask < 0) (invalidOptions "negative max passes per task")
  failIf (opts.maxAttempts < 0) (invalidOptions "negative max attempts")
  failIf (opts.retryInitialBackoff < 0 ∨ opts.retryMaxBackoff < 0) (invalidOptions "negative retry backoff")
  let retryInitialBackoff := orDefault opts.retryInitialBackoff 250000000
  let retryMaxBackoff := orDefault opts.retryMaxBackoff 30000000000
  failIf (retryMaxBackoff < retryInitialBackoff) (invalidOptions "max retry backoff below initial backoff")
  failIf (opts.continuationDelay < 0) (invalidOptions "negative continuation delay")
  return {
    maxConcurrentPartitions := orDefault opts.maxConcurrentPartitions 8
    partitionRunTimeout := orDefault opts.partitionRunTimeout 30000000000
    maxPassesPerTask := orDefault opts.maxPassesPerTask 64
    maxAttempts := orDefault opts.maxAttempts 5
    retryInitialBackoff := retryInitialBackoff
    retryMaxBackoff := retryMaxBackoff
    continuationDelay := orDefault opts.continuationDelay 10000000 }

/-- A scheduler that `newScheduler` made. -/
structure Scheduler where
  given : SchedulerOptions
  opts : SchedulerOptions
  made : newScheduler given = .ok opts

namespace Scheduler

variable (s : Scheduler)

def maxConcurrent : Nat := s.opts.maxConcurrentPartitions.toNat
def maxPasses : Nat := s.opts.maxPassesPerTask.toNat
def maxAttempts : Nat := s.opts.maxAttempts.toNat

theorem limits_pos : 0 < s.maxConcurrent ∧ 0 < s.maxPasses ∧ 0 < s.maxAttempts := by
  have hmade := s.made
  simp only [newScheduler, checks_ok] at hmade
  obtain ⟨hconcurrent, -, hpasses, hattempts, -, -, -, hopts⟩ := hmade
  unfold maxConcurrent maxPasses maxAttempts
  rw [← hopts]
  have h1 := orDefault_pos hconcurrent (show 0 < 8 by decide)
  have h2 := orDefault_pos hpasses (show 0 < 64 by decide)
  have h3 := orDefault_pos hattempts (show 0 < 5 by decide)
  dsimp only
  omega

/-- The loop of `retryDelay`, with the doublings still to do. -/
def backoff (max : Int) : Nat → Int → Int
  | 0, delay => delay
  | n + 1, delay => if delay < max then (if delay > max / 2 then max else backoff max n (delay * 2)) else delay

def retryDelay (jitter : Int → Int) (failedAttempt : Nat) : Int :=
  let delay := backoff s.opts.retryMaxBackoff (failedAttempt - 1) s.opts.retryInitialBackoff
  let delay := if delay > s.opts.retryMaxBackoff then s.opts.retryMaxBackoff else delay
  let jittered := jitter delay
  if jittered < 0 then 0 else jittered

end Scheduler

/-! ## State -/

structure ScheduledTask where
  task : Task
  attempt : Nat
  passes : Nat
  readyAt : Int
  order : UInt64
deriving DecidableEq, Repr

def ScheduledTask.less (a b : ScheduledTask) : Bool :=
  if a.readyAt = b.readyAt then a.order < b.order else a.readyAt < b.readyAt

/-- `heap.Push`. -/
def push (item : ScheduledTask) : List ScheduledTask → List ScheduledTask
  | [] => [item]
  | other :: queue => if item.less other then item :: other :: queue else other :: push item queue

theorem push_perm (item : ScheduledTask) (queue : List ScheduledTask) : (push item queue).Perm (item :: queue) := by
  induction queue with
  | nil => exact .refl _
  | cons other queue ih =>
    unfold push
    split
    · exact .refl _
    · exact (ih.cons other).trans (.swap item other queue)

structure PassResult where
  task : ScheduledTask
  result : Result
  err : Option Err
  duration : Int
deriving DecidableEq, Repr

/-- How far the goroutine of a pass is: before the call of the runner, in it, or after it. -/
inductive Stage where
  | spawned
  | calling (started : Int)
  | finished (started : Int) (result : Result) (err : Option Err)
deriving DecidableEq, Repr

structure Pass where
  task : ScheduledTask
  stage : Stage
deriving DecidableEq, Repr

structure ScheduleResult where
  tasks : Nat
  completed : Nat
  failed : Nat
  deferred : Nat
  passes : Nat
  retries : Nat
  continuations : Nat
deriving DecidableEq, Repr

structure SchedulerEvent where
  task : Task
  attempt : Nat
  duration : Int
  result : Result
  err : Option Err
  nextDelay : Int
  final : Bool
  deferred : Bool
deriving DecidableEq, Repr

/-- Where `Run` is: at the head of the loop, after the look at the context, in the loop that starts passes, before the
timer is set, in the `select`, with the result of a pass, in `drainCanceled`, or at one of its ends. -/
inductive Pc where
  | top
  | checked
  | starting (now : Int)
  | arming (wait : Int)
  | waiting (timer : Option Int)
  | handling (pass : PassResult)
  | draining (left : Nat) (err : Err)
  | refused (err : Err)
  | returned (err : Option Err)
  | canceled (err : Err)
deriving DecidableEq, Repr

def Pc.over : Pc → Bool
  | refused _ | returned _ | canceled _ => true
  | _ => false

/-- What the runner saw: calls that began, with the time the pass was ready and the time it was, and calls that
returned. -/
inductive Entry where
  | began (partition : UInt32) (readyAt at_ : Int)
  | ended (partition : UInt32) (failed : Bool)
deriving DecidableEq, Repr

structure Run where
  pc : Pc
  queue : List ScheduledTask
  active : Nat
  order : UInt64
  summary : ScheduleResult
  failures : List Err
  passes : List Pass
  completed : List PassResult
  clock : Int
  ctx : Option Err
  observed : List SchedulerEvent
  log : List Entry

/-- `errors.Join`. -/
def joinAll (errs : List Err) : Option Err := errs.foldl (fun joined err => some (.join joined err)) none

/-! ## The queue at the start -/

def initialQueueFrom (now : Int) : Nat → List UInt32 → List Task → Except Err (List ScheduledTask)
  | _, _, [] => .ok []
  | i, seen, task :: tasks => do
    failIf (task.operation.valid = false)
      (invalidOptions s!"invalid lifecycle operation={task.operation.number}")
    failIf (task.partition ∈ seen) (invalidOptions s!"duplicate partition={task.partition}")
    let queue ← initialQueueFrom now (i + 1) (task.partition :: seen) tasks
    return ⟨task, 1, 0, now, UInt64.ofNat i⟩ :: queue

def initialQueue (now : Int) (tasks : List Task) : Except Err (List ScheduledTask) := initialQueueFrom now 0 [] tasks

/-- `Run` up to its loop. -/
def begin_ (tasks : List Task) (clock : Int) (ctx : Option Err) : Run where
  pc :=
    match initialQueue clock tasks with
    | .error err => .refused err
    | .ok _ => if tasks = [] then .returned none else .top
  queue :=
    match initialQueue clock tasks with
    | .error _ => []
    | .ok queue => queue
  active := 0
  order := UInt64.ofNat tasks.length
  summary := ⟨tasks.length, 0, 0, 0, 0, 0, 0⟩
  failures := []
  passes := []
  completed := []
  clock := clock
  ctx := ctx
  observed := []
  log := []

/-! ## What follows a pass -/

/-- The cases of the `switch` on the result of a pass. -/
inductive Verdict where
  | complete
  | fail (err : Err)
  | defer_
  | continue_
  | retry
deriving DecidableEq

def Scheduler.verdict (s : Scheduler) (task : ScheduledTask) (pass : PassResult) : Verdict :=
  match pass.err with
  | none => if pass.result.hasMore = false then .complete else if task.passes ≥ s.maxPasses then .defer_ else .continue_
  | some err => if task.attempt ≥ s.maxAttempts ∨ task.passes ≥ s.maxPasses then .fail err else .retry

/-- Put the task back on the queue. -/
def Run.requeue (r : Run) (task : ScheduledTask) (attempt : Nat) (delay : Int) : Run :=
  { r with
    queue := push { task with attempt := attempt, readyAt := r.clock + delay, order := r.order } r.queue
    order := r.order + 1 }

def failureOf (task : ScheduledTask) (err : Err) : Err :=
  .within (s!"lifecycle scheduler: {task.task.operation.text} partition={task.task.partition}" ++
    s!" attempts={task.attempt} passes={task.passes}") err

/-- The case `pass := <-completed` after the receive. -/
def Scheduler.settle (s : Scheduler) (jitter : Int → Int) (r : Run) (pass : PassResult) : Run :=
  let task := { pass.task with passes := pass.task.passes + 1 }
  let sum := { r.summary with passes := r.summary.passes + 1 }
  let event : SchedulerEvent := ⟨task.task, task.attempt, pass.duration, pass.result, pass.err, 0, false, false⟩
  match s.verdict task pass with
  | .complete =>
    { r with
      pc := .top
      summary := { sum with completed := sum.completed + 1 }
      observed := r.observed ++ [{ event with final := true }] }
  | .fail err =>
    { r with
      pc := .top
      summary := { sum with failed := sum.failed + 1 }
      failures := r.failures ++ [failureOf task err]
      observed := r.observed ++ [{ event with final := true }] }
  | .defer_ =>
    { r with
      pc := .top
      summary := { sum with deferred := sum.deferred + 1 }
      observed := r.observed ++ [{ event with final := true, deferred := true }] }
  | .continue_ =>
    let delay := s.opts.continuationDelay
    { r.requeue task 1 delay with
      pc := .top
      summary := { sum with continuations := sum.continuations + 1 }
      observed := r.observed ++ [{ event with nextDelay := delay }] }
  | .retry =>
    let delay := s.retryDelay jitter task.attempt
    { r.requeue task (task.attempt + 1) delay with
      pc := .top
      summary := { sum with retries := sum.retries + 1 }
      observed := r.observed ++ [{ event with nextDelay := delay }] }

/-- A turn of the loop of `drainCanceled`. -/
def Run.drain (r : Run) (pass : PassResult) : Run :=
  { r with
    summary := { r.summary with passes := r.summary.passes + 1 }
    observed := r.observed ++
      [⟨pass.task.task, pass.task.attempt, pass.duration, pass.result, pass.err, 0, true, false⟩] }

/-! ## Steps -/

/-- `for queue.Len() > 0 || active > 0`. -/
def Run.busy (r : Run) : Prop := r.queue ≠ [] ∨ r.active ≠ 0

/-- The head of the queue may start a pass at `now`. -/
def Scheduler.ready (s : Scheduler) (active : Nat) (queue : List ScheduledTask) (now : Int) : Bool :=
  active < s.maxConcurrent && queue.head?.any fun item => item.readyAt ≤ now

/-- How the `select` is entered: with a timer when a pass could start later. -/
def Scheduler.armed (s : Scheduler) (r : Run) : Pc :=
  match r.queue with
  | item :: _ => if r.active < s.maxConcurrent then .arming (max 0 (item.readyAt - r.clock)) else .waiting none
  | [] => .waiting none

/-- A step of the goroutine that called `Run`. -/
inductive Turn (s : Scheduler) : Run → Run → Prop
  | finish {r : Run} : r.pc = .top → ¬r.busy → Turn s r { r with pc := .returned (joinAll r.failures) }
  | stop {r : Run} {err : Err} : r.pc = .top → r.busy → r.ctx = some err →
      Turn s r { r with pc := .draining r.active err }
  | goOn {r : Run} : r.pc = .top → r.busy → r.ctx = none → Turn s r { r with pc := .checked }
  | look {r : Run} : r.pc = .checked → Turn s r { r with pc := .starting r.clock }
  | start {r : Run} {now : Int} {item : ScheduledTask} {queue : List ScheduledTask} : r.pc = .starting now →
      s.ready r.active r.queue now = true → r.queue = item :: queue →
      Turn s r { r with queue := queue, active := r.active + 1, passes := r.passes ++ [⟨item, .spawned⟩] }
  | started {r : Run} {now : Int} : r.pc = .starting now → s.ready r.active r.queue now = false → Turn s r { r with pc := s.armed r }
  | arm {r : Run} {wait : Int} : r.pc = .arming wait → Turn s r { r with pc := .waiting (some (r.clock + wait)) }
  | receive {r : Run} {timer : Option Int} {pass : PassResult} {completed : List PassResult} : r.pc = .waiting timer →
      r.completed = pass :: completed →
      Turn s r { r with completed := completed, active := r.active - 1, pc := .handling pass }
  | settle {r : Run} {pass : PassResult} {jitter : Int → Int} : r.pc = .handling pass →
      Turn s r (s.settle jitter r pass)
  | timer {r : Run} {deadline : Int} : r.pc = .waiting (some deadline) → deadline ≤ r.clock →
      Turn s r { r with pc := .top }
  | done {r : Run} {timer : Option Int} {err : Err} : r.pc = .waiting timer → r.ctx = some err →
      Turn s r { r with pc := .draining r.active err }
  | drain {r : Run} {left : Nat} {err : Err} {pass : PassResult} {completed : List PassResult} :
      r.pc = .draining (left + 1) err → r.completed = pass :: completed →
      Turn s r { r.drain pass with completed := completed, pc := .draining left err }
  | drained {r : Run} {err : Err} : r.pc = .draining 0 err → Turn s r { r with pc := .canceled err }

/-- A step of the goroutine of a pass, `runPass`. -/
inductive PassStep (s : Scheduler) : Run → Run → Prop
  | call {r : Run} {before after : List Pass} {task : ScheduledTask} : r.passes = before ++ ⟨task, .spawned⟩ :: after →
      PassStep s r { r with
        passes := before ++ ⟨task, .calling r.clock⟩ :: after
        log := r.log ++ [.began task.task.partition task.readyAt r.clock] }
  | return_ {r : Run} {before after : List Pass} {task : ScheduledTask} {started : Int} {result : Result}
      {err : Option Err} : r.passes = before ++ ⟨task, .calling started⟩ :: after →
      PassStep s r { r with
        passes := before ++ ⟨task, .finished started result err⟩ :: after
        log := r.log ++ [.ended task.task.partition err.isSome] }
  | send {r : Run} {before after : List Pass} {task : ScheduledTask} {started : Int} {result : Result}
      {err : Option Err} : r.passes = before ++ ⟨task, .finished started result err⟩ :: after →
      r.completed.length < s.maxConcurrent →
      PassStep s r { r with
        passes := before ++ after
        completed := r.completed ++ [⟨task, result, err, r.clock - started⟩] }

/-- Time passes, and the context ends. -/
inductive Tick : Run → Run → Prop
  | clock {r : Run} {now : Int} : r.clock ≤ now → Tick r { r with clock := now }
  | ctx {r : Run} {err : Err} : r.ctx = none → Tick r { r with ctx := some err }

inductive Step (s : Scheduler) : Run → Run → Prop
  | turn {r r' : Run} : Turn s r r' → Step s r r'
  | pass {r r' : Run} : PassStep s r r' → Step s r r'
  | tick {r r' : Run} : Tick r r' → Step s r r'

/-- The states of the calls of `Run` with these tasks. -/
inductive Reaches (s : Scheduler) (tasks : List Task) : Run → Prop
  | start {clock : Int} {ctx : Option Err} : Reaches s tasks (begin_ tasks clock ctx)
  | step {r r' : Run} : Reaches s tasks r → Step s r r' → Reaches s tasks r'

end ObjLog.Lifecycle
