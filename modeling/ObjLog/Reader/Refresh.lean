import ObjLog.Reader.Coordinator
/-!
# Shared refreshes, `reader/load_group.go` and `refresh` of `reader/api.go`

Calls for one partition share one catalog load. A step of the system is one
critical section of one caller, of one load or of the reader's own calls, a
context that ends, a catalog that answers, or a commit of another process.
Nothing orders them.

The clock counts steps. It is not part of the code: it says when a call began,
when a load read the catalog and when a head was committed, so that statements
can speak about the order of the three.
-/

namespace ObjLog.Reader

open Pmeta

/-! ## Loads and callers -/

/-- `headSnapshot`, and when its catalog read took place. -/
structure HeadSnapshot where
  snapshot : Snapshot
  generation : UInt64
  readAt : Nat
deriving DecidableEq

/-- Where the goroutine of a load is: `run` and the function that `refresh` gives it. -/
inductive LoadPhase where
  | starting
  | reading (previous : Option (Snapshot × UInt64))
  | read (snapshot : Snapshot) (readAt : Nat)
  | loaded (result : Except Err HeadSnapshot)
  | settled (result : Except Err HeadSnapshot)
  | finished (result : Except Err HeadSnapshot)

/-- `loadCall`; `cause` is what its context was cancelled with. -/
structure LoadCall where
  partition : UInt32
  waiters : Int
  cause : Option Err
  phase : LoadPhase

def LoadCall.finished (call : LoadCall) : Bool :=
  match call.phase with
  | .finished _ => true
  | _ => false

/-- `call.cancel(cause)`: the first cause stands. -/
def LoadCall.cancel (call : LoadCall) (cause : Err) : LoadCall := { call with cause := call.cause.or (some cause) }

inductive Freshness where
  | default | cached | onTail | latest
  | other (value : Int64)
deriving DecidableEq

/-- What is called: `Head`, the head of a `Read`, or `refresh` itself (`ResumeCursor`, `Checkpoint`, polling). -/
inductive Request where
  | head
  | read (startLSN : UInt64) (freshness : Freshness)
  | refresh
deriving DecidableEq

/-- The requests that ask for the latest head. -/
def Request.latest : Request → Bool
  | .read _ .latest => true
  | .refresh => true
  | _ => false

/-- Where a caller is. `served` was answered from the cache, `returned` by `refresh`. -/
inductive CallerPhase where
  | called
  | refreshing
  | joining
  | waiting (load : Nat)
  | leaving (load : Nat) (result : Except Err HeadSnapshot)
  | cancelling (load : Nat) (result : Except Err HeadSnapshot)
  | served (snapshot : Snapshot)
  | returned (result : Except Err HeadSnapshot)

/-- A call, when it began and the newest head then. -/
structure Caller where
  partition : UInt32
  request : Request
  beganAt : Nat
  began : Option Snapshot
  phase : CallerPhase

/-- How many heads were committed when the call began. -/
def Caller.beganGeneration (c : Caller) : Nat := (c.began.map (·.generation)).getD 0

/-- What `refresh` gave a call that succeeded. -/
def Caller.result (c : Caller) : Option HeadSnapshot :=
  match c.phase with
  | .returned (.ok v) => some v
  | _ => none

/-! ## The system -/

/-- The coordinator, its load group (`calls`, `closeErr`), the loads and callers so far, the loads that `Close` still
has to cancel, and the heads each partition ever had, each with the time of its commit. -/
structure State where
  coordinator : Coordinator
  calls : UInt32 → Option Nat
  closeErr : Option Err
  loads : List LoadCall
  closing : List Nat
  callers : List Caller
  catalog : UInt32 → List (Nat × PartitionHead)
  clock : Nat

def State.start (maxCachedPartitionHeads : Int) : State :=
  ⟨newRefreshCoordinator maxCachedPartitionHeads, fun _ => none, none, [], [], [], fun _ => [], 0⟩

/-- How a catalog read ends. -/
inductive Answer where
  | fails (e : Err)
  | missing
  | unchanged
  | snapshot

inductive Action where
  | commit (partition : UInt32) (head : PartitionHead)
  | watch (partition : UInt32)
  | unwatch (partition : UInt32)
  | close
  | closeGroup
  | cancelClosed (load : Nat)
  | call (partition : UInt32) (request : Request)
  | lookup (caller : Nat)
  | checkOpen (caller : Nat)
  | giveUp (caller : Nat) (e : Err)
  | join (caller : Nat)
  | wake (caller : Nat)
  | abandon (caller : Nat) (e : Err)
  | release (caller : Nat)
  | cancelLoad (caller : Nat)
  | begin (load : Nat)
  | answer (load : Nat) (a : Answer)
  | update (load : Nat)
  | settle (load : Nat)
  | finish (load : Nat)

namespace State

/-- The newest head of the partition. -/
def newest (s : State) (partition : UInt32) : Option Snapshot :=
  (s.catalog partition).getLast?.map fun e => ⟨(s.catalog partition).length, e.2⟩

/-- What the heads of a partition keep from one commit to the next. -/
def Follows (h h' : PartitionHead) : Prop :=
  h.streamID = h'.streamID ∧ h.nextLSN ≤ h'.nextLSN ∧ h.oldestLSN ≤ h'.oldestLSN ∧ h.writerEpoch ≤ h'.writerEpoch

instance (h h' : PartitionHead) : Decidable (Follows h h') := by unfold Follows; infer_instance

def setCaller (s : State) (i : Nat) (caller : Caller) (phase : CallerPhase) : State :=
  { s with callers := s.callers.set i { caller with phase := phase } }

def setLoad (s : State) (l : Nat) (call : LoadCall) : State := { s with loads := s.loads.set l call }

def commit (s : State) (partition : UInt32) (head : PartitionHead) : Option State :=
  if head.partition = partition ∧ ∀ e ∈ s.catalog partition, Follows e.2 head then
    some { s with catalog := Function.update s.catalog partition (s.catalog partition ++ [(s.clock, head)]) }
  else none

/-- `group.Close`: the calls registered now are cancelled next. -/
def closeGroup (s : State) (cause : Err) : State :=
  match s.closeErr with
  | some _ => s
  | none =>
    { s with closeErr := some cause
             closing := (List.range s.loads.length).filter fun l =>
               match s.loads[l]? with
               | some call => s.calls call.partition == some l
               | none => false }

/-- The first part of `head` and `headForRead`: what the cache has, and whether that will do. -/
def lookup (s : State) (i : Nat) (caller : Caller) : State :=
  let found := (s.coordinator.partitionSnapshot caller.partition).1
  let looked := { s with coordinator := (s.coordinator.partitionSnapshot caller.partition).2 }
  match caller.request, found with
  | .refresh, _ => s.setCaller i caller .refreshing
  | .read _ (.other value), _ =>
    s.setCaller i caller (.returned (.error (.of (.reader .invalidRequest) s!"unknown freshness={value}")))
  | .head, some (snapshot, _) => looked.setCaller i caller (.served snapshot)
  | .read _ .cached, some (snapshot, _) => looked.setCaller i caller (.served snapshot)
  | .read startLSN .default, some (snapshot, _) =>
    looked.setCaller i caller (if startLSN ≥ snapshot.head.nextLSN then .refreshing else .served snapshot)
  | .read startLSN .onTail, some (snapshot, _) =>
    looked.setCaller i caller (if startLSN ≥ snapshot.head.nextLSN then .refreshing else .served snapshot)
  | _, _ => looked.setCaller i caller .refreshing

def checkOpen (s : State) (i : Nat) (caller : Caller) : State :=
  s.setCaller i caller (if s.coordinator.isClosed then .returned (.error (.bare (.reader .closed))) else .joining)

/-- A load registered for the partition, its goroutine about to run. -/
def newCall (s : State) (partition : UInt32) : State :=
  { s with loads := s.loads ++ [⟨partition, 1, none, .starting⟩]
           calls := Function.update s.calls partition (some s.loads.length) }

/-- `Do`: wait for the load in flight, or start one. -/
def join (s : State) (i : Nat) (caller : Caller) : State :=
  match s.closeErr with
  | some e => s.setCaller i caller (.returned (.error e))
  | none =>
    match s.calls caller.partition with
    | some l =>
      match s.loads[l]? with
      | some call => (s.setLoad l { call with waiters := call.waiters + 1 }).setCaller i caller (.waiting l)
      | none => s
    | none =>
      (s.newCall caller.partition).setCaller i caller (.waiting s.loads.length)

/-- Load `l` is no longer the one later calls join. -/
def forget (s : State) (l : Nat) (call : LoadCall) : State :=
  if s.calls call.partition = some l then { s with calls := Function.update s.calls call.partition none } else s

/-- `releaseWaiter`. -/
def release (s : State) (i : Nat) (caller : Caller) (l : Nat) (call : LoadCall) (result : Except Err HeadSnapshot) :
    State :=
  let released := s.setLoad l { call with waiters := call.waiters - 1 }
  if call.waiters - 1 = 0 ∧ call.finished = false then (released.forget l call).setCaller i caller (.cancelling l result)
  else released.setCaller i caller (.returned result)

/-- The catalog answers the load's read; `snapshots` says whether the catalog is a `SnapshotReader`. -/
def answer (snapshots : Bool) (s : State) (l : Nat) (call : LoadCall) (previous : Option (Snapshot × UInt64)) :
    Answer → Option State
  | .fails e => some (s.setLoad l { call with phase := .loaded (.error e) })
  | .missing =>
    if snapshots then
      some (s.setLoad l { call with
        phase := .loaded (.error (.of (.reader .corruptData) "catalog returned nil partition snapshot")) })
    else none
  | .unchanged =>
    match previous with
    | some (snapshot, generation) =>
      if snapshots ∧ snapshot.generation = (s.catalog call.partition).length then
        some (s.setLoad l { call with phase := .loaded (.ok ⟨snapshot, generation, s.clock⟩) })
      else none
    | none => none
  | .snapshot => (s.newest call.partition).map fun snapshot => s.setLoad l { call with phase := .read snapshot s.clock }

/-- `updateHead` at the end of the load. -/
def update (s : State) (l : Nat) (call : LoadCall) (snapshot : Snapshot) (readAt : Nat) : State :=
  let updated := s.coordinator.updateHead call.partition snapshot
  { s with coordinator := updated.2 }.setLoad l { call with phase := .loaded (.ok ⟨snapshot, updated.1, readAt⟩) }

/-- The value of a load whose context has ended is its cause. -/
def settled (call : LoadCall) (result : Except Err HeadSnapshot) : Except Err HeadSnapshot :=
  match call.cause with
  | some cause => .error cause
  | none => result

/-- One action, where it applies. -/
def act (snapshots : Bool) (s : State) : Action → Option State
  | .commit partition head => s.commit partition head
  | .watch partition => some { s with coordinator := s.coordinator.watchPartition partition }
  | .unwatch partition => some { s with coordinator := s.coordinator.unwatchPartition partition }
  | .close => some { s with coordinator := s.coordinator.close }
  | .closeGroup => if s.coordinator.closed then some (s.closeGroup (.bare (.reader .closed))) else none
  | .cancelClosed l =>
    match s.loads[l]? with
    | some call =>
      if l ∈ s.closing then
        some ({ s with closing := s.closing.erase l }.setLoad l (call.cancel (s.closeErr.getD (.bare (.reader .closed)))))
      else none
    | none => none
  | .call partition request =>
    some { s with callers := s.callers ++ [⟨partition, request, s.clock, s.newest partition, .called⟩] }
  | .lookup i =>
    match s.callers[i]? with
    | some ⟨p, r, t, b, .called⟩ => some (s.lookup i ⟨p, r, t, b, .called⟩)
    | _ => none
  | .checkOpen i =>
    match s.callers[i]? with
    | some ⟨p, r, t, b, .refreshing⟩ => some (s.checkOpen i ⟨p, r, t, b, .refreshing⟩)
    | _ => none
  | .giveUp i e =>
    match s.callers[i]? with
    | some ⟨p, r, t, b, .joining⟩ => some (s.setCaller i ⟨p, r, t, b, .joining⟩ (.returned (.error e)))
    | _ => none
  | .join i =>
    match s.callers[i]? with
    | some ⟨p, r, t, b, .joining⟩ => some (s.join i ⟨p, r, t, b, .joining⟩)
    | _ => none
  | .wake i =>
    match s.callers[i]? with
    | some ⟨p, r, t, b, .waiting l⟩ =>
      match s.loads[l]? with
      | some ⟨_, _, _, .finished result⟩ => some (s.setCaller i ⟨p, r, t, b, .waiting l⟩ (.leaving l result))
      | _ => none
    | _ => none
  | .abandon i e =>
    match s.callers[i]? with
    | some ⟨p, r, t, b, .waiting l⟩ => some (s.setCaller i ⟨p, r, t, b, .waiting l⟩ (.leaving l (.error e)))
    | _ => none
  | .release i =>
    match s.callers[i]? with
    | some ⟨p, r, t, b, .leaving l result⟩ =>
      match s.loads[l]? with
      | some call => some (s.release i ⟨p, r, t, b, .leaving l result⟩ l call result)
      | none => none
    | _ => none
  | .cancelLoad i =>
    match s.callers[i]? with
    | some ⟨p, r, t, b, .cancelling l result⟩ =>
      match s.loads[l]? with
      | some call =>
        some ((s.setLoad l (call.cancel (.bare (.reader .noLoadWaiters)))).setCaller i ⟨p, r, t, b, .cancelling l result⟩
          (.returned result))
      | none => none
    | _ => none
  | .begin l =>
    match s.loads[l]? with
    | some ⟨p, w, cause, .starting⟩ =>
      let found := s.coordinator.partitionSnapshot p
      some ({ s with coordinator := found.2 }.setLoad l ⟨p, w, cause, .reading found.1⟩)
    | _ => none
  | .answer l a =>
    match s.loads[l]? with
    | some ⟨p, w, cause, .reading previous⟩ => s.answer snapshots l ⟨p, w, cause, .reading previous⟩ previous a
    | _ => none
  | .update l =>
    match s.loads[l]? with
    | some ⟨p, w, cause, .read snapshot readAt⟩ =>
      some (s.update l ⟨p, w, cause, .read snapshot readAt⟩ snapshot readAt)
    | _ => none
  | .settle l =>
    match s.loads[l]? with
    | some ⟨p, w, cause, .loaded result⟩ =>
      some (s.setLoad l ⟨p, w, cause, .settled (settled ⟨p, w, cause, .loaded result⟩ result)⟩)
    | _ => none
  | .finish l =>
    match s.loads[l]? with
    | some ⟨p, w, cause, .settled result⟩ =>
      some ((s.setLoad l ⟨p, w, cause, .finished result⟩).forget l ⟨p, w, cause, .finished result⟩)
    | _ => none

/-- A step: an action, and the clock moves on. -/
def step (snapshots : Bool) (s : State) (a : Action) : Option State :=
  (s.act snapshots a).map fun s' => { s' with clock := s.clock + 1 }

/-- The state after the actions, if each applies and `ok` allows it. -/
def play (snapshots : Bool) (ok : State → Action → State → Bool) (s : State) (actions : List Action) : Option State :=
  actions.foldlM (fun s a => (s.step snapshots a).filter (ok s a)) s

end State

end ObjLog.Reader
