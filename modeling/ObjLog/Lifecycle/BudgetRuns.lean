import ObjLog.Lifecycle.Budget
/-!
# What a call may list and delete

Every loop of a pass keeps its run within the budget: a page is listed within what is
left of the objects, its deletes are scheduled within what is left of the deletes, and
they are made, or the run fails, before the next page.
-/

namespace ObjLog.Lifecycle

open Lib

/-! ## Loops over pages of objects -/

section Loops
variable {opts : Options}

def sizes (candidates : List DeleteCandidate) : List UInt64 := candidates.map DeleteCandidate.size

@[simp] theorem sizes_single (candidate : DeleteCandidate) : sizes [candidate] = [candidate.size] := rfl

end Loops

/-! ## Deletes -/

section Runs
variable {B : Type} (r : Reclaimer)

/-- While objects are unjudged or deletes scheduled. A failure ends the run. -/
theorem Quiet.scheduled {α : Type} {x : M B α} (h : Quiet x) {unjudged : Nat} {scheduled : List UInt64} :
    Triple AtMostLimit (Within r.opts unjudged scheduled) (fun _ => Within r.opts unjudged scheduled) (Within r.opts 0 []) x :=
  (h _ Within.indifferent).mono (fun _ hp => hp) (fun _ _ hp => hp) fun _ hp => hp.done

variable [StateJSON B] [Hashes]

omit [Hashes] in
theorem Within.start : Within r.opts 0 [] PassState.start := by
  have haccepted := newReclaimer_ok r.made
  refine ⟨rfl, Int.le_of_lt haccepted.maxObjectsPerRun, ?_, ?_, ?_, ?_, rfl, Int.le_of_lt haccepted.maxDeletesPerRun, rfl,
    .inr (Nat.zero_le _)⟩ <;> decide

end Runs

namespace Sample

@[reducible] def hashes : Hashes := ⟨fun _ => .zero 32, fun _ => 0, fun _ => 0⟩

/-- A state stored as it is. -/
@[reducible] def stateJSON : StateJSON StateFile := ⟨id, .ok, fun _ => rfl⟩

theorem length_ones : (List.replicate 16 (1 : UInt8)).length = 16 := rfl

def given : Options := ⟨"s", "c", ⟨List.replicate 16 1, length_ones⟩, 0, 0, 0, 0, 0, 0, 0, 0, false, 0, 0, false⟩

def reclaimer : Reclaimer where
  given := given
  random := .error (.plain "unused")
  opts := { given with
    deleteDelay := 86400000000000
    maxPassDuration := 20000000000
    listPageSize := 1000
    maxObjectsPerRun := 10000
    maxDeletesPerRun := 1000
    maxDeleteBytes := 1073741824
    deleteBatchSize := 1000
    deleteConcurrency := 16
    maxQuarantine := 256
    casAttempts := 8 }
  made := by rfl
  layout := ⟨"d", by rfl⟩
  batch := false

def staged : String :=
  let _ := hashes
  reclaimer.layout.partitionStagingPrefix "s" 0 ++ Sink.segmentName 0 1 ⟨List.replicate 16 1, length_ones⟩ "" ++ "/part"

def snapshot : MaintenanceSnapshot := ⟨{ Pmeta.PartitionHead.zero with streamID := "s", writerEpoch := 2 }, 1, 0⟩

/-- One object in the store, staged by an older writer, and no failures. -/
def answers : (e : Op StateFile) → e.Answer
  | .ctxErr | .delete _ | .rateWait _ => none
  | .now => 1000000000000000000
  | .get _ => .error (.bare .objectNotFound)
  | .cas _ _ body => .ok (⟨body, 1⟩, true)
  | .list opts => .ok (if 1 ≤ opts.limit then ⟨[⟨staged, 5, some 0⟩], "", false⟩ else ⟨[], "", false⟩)
  | .deleteBatch keys => keys.map fun _ => none
  | .snapshot _ => .ok snapshot
  | .segments _ _ => .ok (snapshot, ⟨[], 0, false⟩)
  | .pages _ _ _ => .ok (snapshot, ⟨[], 0, false⟩)
  | .marshal _ => ()

def program : Effects StateFile (Except Err (Result × Option Err) × PassState) :=
  let _ := hashes
  let _ := stateJSON
  (reclaimer.exec .runPartition 0 : M StateFile (Result × Option Err)).run.run PassState.start

def outcome : Except Err (Result × Option Err) × PassState := program.run answers

end Sample

end ObjLog.Lifecycle
