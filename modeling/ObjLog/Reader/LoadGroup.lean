import Mathlib.Logic.Function.Basic
import ObjLog.Errors
/-!
# Coalesced loads, `reader/load_group.go`

Callers of one key share one unfinished load. A step is one section under `g.mu`, one use of a
context or channel, or one return of a caller, a load's goroutine or a call of `Close`; nothing
orders them. A context that ended keeps its first cause.
-/

namespace ObjLog.Reader.LoadGroup

variable {V : Type}

/-- What `load` returns: `(any, error)`. -/
abbrev Outcome (V : Type) := Option V × Option Err

/-- Where the goroutine of `run` is. From `finished` on `done` is closed and the outcome is recorded. -/
inductive LoadPhase (V : Type) where
  | starting
  | running
  | returned (o : Outcome V)
  | settled (o : Outcome V)
  | finished (o : Outcome V)
  | cancelled (o : Outcome V)
  | exited (o : Outcome V)

/-- `loadCall`; `cause` is what its context was cancelled with. -/
structure LoadCall (V : Type) where
  key : String
  waiters : Int
  cause : Option Err
  phase : LoadPhase V

/-- The load function has not returned. -/
def LoadCall.loading (call : LoadCall V) : Bool :=
  match call.phase with
  | .starting | .running => true
  | _ => false

/-- The outcome that waiters read. -/
def LoadCall.recorded (call : LoadCall V) : Option (Outcome V) :=
  match call.phase with
  | .finished o | .cancelled o | .exited o => some o
  | _ => none

def LoadCall.exited (call : LoadCall V) : Bool :=
  match call.phase with
  | .exited _ => true
  | _ => false

/-- `call.cancel(cause)`. -/
def LoadCall.cancel (call : LoadCall V) (cause : Err) : LoadCall V := { call with cause := call.cause.or (some cause) }

/-- Where a caller of `Do` is. It joined `load` if it returned with one. -/
inductive CallerPhase (V : Type) where
  | absent
  | called
  | entering
  | waiting (load : Nat)
  | leaving (load : Nat) (abandons : Bool)
  | cancelling (load : Nat) (o : Outcome V)
  | returned (load : Option Nat) (o : Outcome V)

structure Caller (V : Type) where
  key : String
  ctxErr : Option Err
  phase : CallerPhase V

/-- Where a caller of `Close` is; `cause` is never nil. -/
inductive Closer where
  | absent
  | called (cause : Err)
  | cancelling (cause : Err) (loads : List Nat)
  | returned

/-- The group, the loads it ever started and the callers of its methods. -/
structure State (V : Type) where
  calls : String → Option Nat
  closeErr : Option Err
  active : Int
  started : Nat
  loads : Nat → LoadCall V
  callers : Nat → Caller V
  closers : Nat → Closer

def State.initial : State V :=
  ⟨fun _ => none, none, 0, 0, fun _ => ⟨"", 0, none, .starting⟩, fun _ => ⟨"", none, .absent⟩, fun _ => .absent⟩

namespace State

def setCaller (s : State V) (i : Nat) (c : Caller V) : State V := { s with callers := Function.update s.callers i c }

def moveCaller (s : State V) (i : Nat) (phase : CallerPhase V) : State V := s.setCaller i { s.callers i with phase := phase }

def setLoad (s : State V) (l : Nat) (call : LoadCall V) : State V := { s with loads := Function.update s.loads l call }

def moveLoad (s : State V) (l : Nat) (phase : LoadPhase V) : State V := s.setLoad l { s.loads l with phase := phase }

def setCloser (s : State V) (j : Nat) (closer : Closer) : State V := { s with closers := Function.update s.closers j closer }

/-- Load `l` is no longer the one that callers join. -/
def forget (s : State V) (l : Nat) : State V :=
  if s.calls (s.loads l).key = some l then { s with calls := Function.update s.calls (s.loads l).key none } else s

/-- A new load of `key` that counts `waiters`. -/
def register (s : State V) (key : String) (waiters : Int) : State V :=
  { s with
    calls := Function.update s.calls key (some s.started)
    active := s.active + 1
    started := s.started + 1
    loads := Function.update s.loads s.started ⟨key, waiters, none, .starting⟩ }

/-- The load counts so many waiters. -/
def count (s : State V) (l : Nat) (waiters : Int) : State V := s.setLoad l { s.loads l with waiters := waiters }

/-- The section of `Do`. -/
def enter (s : State V) (i : Nat) : State V :=
  match s.closeErr with
  | some err => s.moveCaller i (.returned none (none, some err))
  | none =>
    match s.calls (s.callers i).key with
    | some l => (s.count l ((s.loads l).waiters + 1)).moveCaller i (.waiting l)
    | none => (s.register (s.callers i).key 1).moveCaller i (.waiting s.started)

/-- What `wait` returns. -/
def outcome (s : State V) (i l : Nat) (abandons : Bool) : Outcome V :=
  if abandons then (none, (s.callers i).ctxErr) else (s.loads l).recorded.getD (none, none)

/-- `releaseWaiter`. -/
def release (s : State V) (i l : Nat) (abandons : Bool) : State V :=
  if (s.loads l).waiters - 1 = 0 ∧ (s.loads l).recorded = none then
    ((s.forget l).count l ((s.loads l).waiters - 1)).moveCaller i (.cancelling l (s.outcome i l abandons))
  else (s.count l ((s.loads l).waiters - 1)).moveCaller i (.returned (some l) (s.outcome i l abandons))

/-- The section of `run`. -/
def finish (s : State V) (l : Nat) (o : Outcome V) : State V := (s.forget l).moveLoad l (.finished o)

/-- The section of `Close`: the first one takes the loads of the map, each once. -/
def close (s : State V) (j : Nat) (cause : Err) : State V :=
  match s.closeErr with
  | some _ => s.setCloser j (.cancelling cause [])
  | none => { s with closeErr := some cause }.setCloser j
      (.cancelling cause ((List.range s.started).filter fun l => s.calls (s.loads l).key = some l))

/-- One step. -/
inductive Step (s : State V) : State V → Prop
  | call (i : Nat) (key : String) : (s.callers i).phase = .absent → Step s (s.setCaller i ⟨key, none, .called⟩)
  | ctxEnds (i : Nat) (err : Err) : (s.callers i).ctxErr = none → Step s (s.setCaller i { s.callers i with ctxErr := some err })
  | check (i : Nat) : (s.callers i).phase = .called → Step s (s.moveCaller i
      (match (s.callers i).ctxErr with | some err => .returned none (none, some err) | none => .entering))
  | enter (i : Nat) : (s.callers i).phase = .entering → Step s (s.enter i)
  | abandon (i l : Nat) : (s.callers i).phase = .waiting l → (s.callers i).ctxErr ≠ none → Step s (s.moveCaller i (.leaving l true))
  | wake (i l : Nat) : (s.callers i).phase = .waiting l → (s.loads l).recorded ≠ none → Step s (s.moveCaller i (.leaving l false))
  | release (i l : Nat) (abandons : Bool) : (s.callers i).phase = .leaving l abandons → Step s (s.release i l abandons)
  | cancelLoad (i l : Nat) (o : Outcome V) : (s.callers i).phase = .cancelling l o →
      Step s ((s.setLoad l ((s.loads l).cancel (.bare (.reader .noLoadWaiters)))).moveCaller i (.returned (some l) o))
  | begin (l : Nat) : l < s.started → (s.loads l).phase = .starting → Step s (s.moveLoad l .running)
  | loadReturns (l : Nat) (o : Outcome V) : l < s.started → (s.loads l).phase = .running → Step s (s.moveLoad l (.returned o))
  | settle (l : Nat) (o : Outcome V) : l < s.started → (s.loads l).phase = .returned o → Step s (s.moveLoad l
      (.settled (match (s.loads l).cause with | some e => (none, some e) | none => o)))
  | finish (l : Nat) (o : Outcome V) : l < s.started → (s.loads l).phase = .settled o → Step s (s.finish l o)
  | cancelFinished (l : Nat) (o : Outcome V) : l < s.started → (s.loads l).phase = .finished o → Step s
      (s.setLoad l { (s.loads l).cancel (.bare .canceled) with phase := .cancelled o })
  | exit (l : Nat) (o : Outcome V) : l < s.started → (s.loads l).phase = .cancelled o → Step s
      ({ s with active := s.active - 1 }.moveLoad l (.exited o))
  | callClose (j : Nat) (cause : Option Err) : s.closers j = .absent → Step s
      (s.setCloser j (.called (cause.getD (.bare (.reader .closed)))))
  | close (j : Nat) (cause : Err) : s.closers j = .called cause → Step s (s.close j cause)
  | cancelClosed (j : Nat) (cause : Err) (l : Nat) (loads : List Nat) : s.closers j = .cancelling cause (l :: loads) →
      Step s ((s.setLoad l ((s.loads l).cancel cause)).setCloser j (.cancelling cause loads))
  | closeReturns (j : Nat) (cause : Err) : s.closers j = .cancelling cause [] → s.active = 0 → Step s (s.setCloser j .returned)

/-- The states of every interleaving. -/
inductive Reachable : State V → Prop
  | initial : Reachable initial
  | step {s s' : State V} : Reachable s → Step s s' → Reachable s'

end State

end ObjLog.Reader.LoadGroup
