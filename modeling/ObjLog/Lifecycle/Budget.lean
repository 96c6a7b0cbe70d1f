import ObjLog.Lib.Triple
import ObjLog.Lifecycle.Passes
/-!
# Runs stay within their budget

A run has listed objects it has not judged yet and scheduled deletes it has not made
yet. `Within` counts both as used, so scheduling a delete is where the limits are
checked and making it, or failing to, changes nothing.
-/

namespace ObjLog.Lifecycle

open Lib

/-- What the sizes add up to. -/
def total (sizes : List UInt64) : Nat := (sizes.map UInt64.toNat).sum

@[simp] theorem total_nil : total [] = 0 := rfl

@[simp] theorem total_cons (size : UInt64) (sizes : List UInt64) : total (size :: sizes) = size.toNat + total sizes := by
  simp [total]

@[simp] theorem total_append (xs ys : List UInt64) : total (xs ++ ys) = total xs + total ys := by
  simp [total]

theorem total_sublist {xs ys : List UInt64} (h : xs.Sublist ys) : total xs ≤ total ys := by
  induction h with
  | slnil => exact Nat.le_refl _
  | cons | cons_cons => simp only [total_cons]; omega

theorem total_single {sizes : List UInt64} (h : sizes.length ≤ 1) : total sizes < 2 ^ 64 := by
  match sizes, h with
  | [], _ => decide
  | [size], _ => simpa using size.toNat_lt

/-- A run within its budget, with this many objects listed and not judged and deletes of these sizes scheduled. -/
structure Within (opts : Options) (unjudged : Nat) (scheduled : List UInt64) (p : PassState) : Prop where
  scans : p.result.scannedObjects = p.scans.sum
  scanned : p.result.scannedObjects ≤ opts.maxObjectsPerRun
  candidates : 0 ≤ p.result.candidateObjects
  invalid : 0 ≤ p.result.invalidObjects
  quarantined : 0 ≤ p.result.quarantinedObjects ∧ p.result.quarantinedObjects ≤ p.result.candidateObjects
  judged : p.result.candidateObjects + p.result.invalidObjects + unjudged ≤ p.result.scannedObjects
  deletes : p.result.deletedObjects = p.deletes.length
  deleted : (p.deletes.length : Int) + scheduled.length ≤ opts.maxDeletesPerRun
  bytes : p.result.deletedBytes.toNat = total p.deletes
  deletedBytes : total p.deletes + total scheduled ≤ opts.maxDeleteBytes.toNat ∨ p.deletes.length + scheduled.length ≤ 1

namespace Within

variable {opts : Options} {unjudged count : Nat} {scheduled rest : List UInt64} {size : UInt64} {p : PassState}

section
variable (h : Within opts unjudged scheduled p)
include h

/-- Objects may stay unjudged and deletes may fail. -/
theorem weaken (hcount : count ≤ unjudged) (hrest : rest.Sublist scheduled) : Within opts count rest p :=
  { h with
    judged := by have := h.judged; omega
    deleted := by have := h.deleted; have := hrest.length_le; omega
    deletedBytes := by
      have hbytes := total_sublist hrest
      have hlen := hrest.length_le
      rcases h.deletedBytes with hmax | hone
      · exact .inl (by omega)
      · exact .inr (by omega) }

theorem done : Within opts 0 [] p := h.weaken (Nat.zero_le _) (List.nil_sublist _)

/-- The bytes deleted and scheduled fit their counter: the byte limit does, and so does one object. -/
theorem fits : total p.deletes + total scheduled < 2 ^ 64 := by
  rcases h.deletedBytes with hmax | hone
  · exact Nat.lt_of_le_of_lt hmax opts.maxDeleteBytes.toNat_lt
  · rw [← total_append]
    exact total_single (by simpa using hone)

theorem exhaust : Within opts unjudged scheduled p.exhaust := { h with }

theorem recordScan (count : Nat) (hcount : (count : Int) ≤ p.remaining opts) :
    Within opts (unjudged + count) scheduled (p.recordScan opts count) := by
  have hjudged := h.judged
  refine { h with scans := ?_, scanned := ?_, judged := ?_ }
  · simp [PassState.recordScan, h.scans]
  · simp only [PassState.recordScan, PassState.remaining] at hcount ⊢
    omega
  · simp only [PassState.recordScan]
    omega

end

theorem recordCandidate (h : Within opts (unjudged + 1) scheduled p) :
    Within opts unjudged scheduled p.recordCandidate := by
  have hjudged := h.judged
  have hcandidates := h.candidates
  have hquarantined := h.quarantined
  refine { h with candidates := ?_, quarantined := ?_, judged := ?_ } <;> simp only [PassState.recordCandidate] <;> omega

/-- A scheduled delete is made. -/
theorem recordDelete (h : Within opts unjudged (size :: rest) p) : Within opts unjudged rest (p.recordDelete opts size) := by
  have hdeletes := h.deletes
  have hdeleted := h.deleted
  have hfits := h.fits
  have hbytes := h.deletedBytes
  simp only [total_cons, List.length_cons] at hdeleted hfits hbytes
  refine { h with deletes := ?_, deleted := ?_, bytes := ?_, deletedBytes := ?_ }
  · simp [PassState.recordDelete, hdeletes]
  · simp only [PassState.recordDelete, List.length_append, List.length_singleton]
    omega
  · simp only [PassState.recordDelete, UInt64.toNat_add, h.bytes, total_append, total_cons, total_nil]
    omega
  · simp only [PassState.recordDelete, total_append, total_cons, total_nil, List.length_append, List.length_singleton]
    omega

/-- A delete is scheduled only within the limits, and a refused one ends the budget. -/
theorem canScheduleDelete (h : Within opts unjudged scheduled p) (size : UInt64) {scheduledBytes : UInt64}
    (hbytes : scheduledBytes.toNat = total scheduled) :
    (p.canScheduleDelete opts size scheduled.length scheduledBytes = (true, p) ∧
      (scheduledBytes + size).toNat = total (scheduled ++ [size]) ∧ Within opts unjudged (scheduled ++ [size]) p) ∨
    p.canScheduleDelete opts size scheduled.length scheduledBytes = (false, p.exhaust) := by
  unfold PassState.canScheduleDelete
  by_cases hcount : p.result.deletedObjects + scheduled.length ≥ opts.maxDeletesPerRun
  · exact .inr (if_pos hcount)
  rw [if_neg hcount]
  by_cases hwrap : size > PassState.maxUint64 - scheduledBytes ∨ p.result.deletedBytes > PassState.maxUint64 - scheduledBytes
  · exact .inr (if_pos hwrap)
  rw [if_neg hwrap]
  dsimp only
  by_cases hlimit : p.result.deletedObjects + scheduled.length > 0 ∧
      (p.result.deletedBytes + scheduledBytes ≥ opts.maxDeleteBytes ∨
        size > opts.maxDeleteBytes - (p.result.deletedBytes + scheduledBytes))
  · exact .inr (if_pos hlimit)
  refine .inl ⟨if_neg hlimit, ?_⟩
  have hmax : (PassState.maxUint64 - scheduledBytes).toNat = 2 ^ 64 - 1 - scheduledBytes.toNat :=
    UInt64.toNat_sub_of_le _ _ (UInt64.le_iff_toNat_le.2 (Nat.le_sub_one_of_lt scheduledBytes.toNat_lt))
  simp only [gt_iff_lt, not_or, UInt64.not_lt, UInt64.le_iff_toNat_le, hmax, h.bytes] at hwrap
  have hused : (p.result.deletedBytes + scheduledBytes).toNat = total p.deletes + total scheduled := by
    rw [UInt64.toNat_add, h.bytes, hbytes]
    exact Nat.mod_eq_of_lt h.fits
  have hsize := size.toNat_lt
  have hscheduled := scheduledBytes.toNat_lt
  refine ⟨?_, { h with deleted := ?_, deletedBytes := ?_ }⟩
  · rw [UInt64.toNat_add, total_append, total_cons, total_nil]
    omega
  · have hdeletes := h.deletes
    simp only [List.length_append, List.length_singleton]
    omega
  · simp only [total_append, total_cons, total_nil, List.length_append, List.length_singleton]
    by_cases hfirst : p.deletes.length + scheduled.length = 0
    · exact .inr (by omega)
    · have hpos : p.result.deletedObjects + scheduled.length > 0 := by rw [h.deletes]; omega
      simp only [hpos, true_and, not_or, ge_iff_le, gt_iff_lt, UInt64.not_le, UInt64.not_lt] at hlimit
      have hlt := UInt64.lt_iff_toNat_lt.1 hlimit.1
      have hle := UInt64.le_iff_toNat_le.1 hlimit.2
      rw [UInt64.toNat_sub_of_le _ _ (UInt64.le_iff_toNat_le.2 (Nat.le_of_lt hlt)), hused] at hle
      exact .inl (by omega)

end Within

/-! ## Programs that leave the counters alone -/

/-- A listing has at most as many objects as were asked for. -/
def AtMostLimit {B : Type} : (e : Op B) → e.Answer → Prop
  | .list opts, answer => ∀ page : ObjectPage, answer = .ok page → page.objects.length ≤ opts.limit.toNat
  | _, _ => True

/-- It does not depend on the state or its token. -/
def Indifferent (I : PassState → Prop) : Prop :=
  ∀ (p : PassState) (state : StateFile) (token : Blobstore.Token), I p → I { p with state := state, token := token }

theorem Within.indifferent {opts : Options} {unjudged : Nat} {scheduled : List UInt64} :
    Indifferent (Within opts unjudged scheduled) := fun _ _ _ h => { h with }

variable {B α β : Type} {x : M B α}

/-- The program changes the state and its token only. -/
def Quiet (x : M B α) : Prop := ∀ I : PassState → Prop, Indifferent I → Keeps AtMostLimit I x

namespace Quiet

theorem pure (a : α) : Quiet (pure a : M B α) := fun _ _ => .pure fun _ h => h

theorem throw (e : Err) : Quiet (throw e : M B α) := fun _ _ => .throw fun _ h => h

theorem bind {f : α → M B β} (hx : Quiet x) (hf : ∀ a, Quiet (f a)) : Quiet (x >>= f) :=
  fun I hI => (hx I hI).bind fun a => hf a I hI

theorem perform (e : Op B) : Quiet (perform e) := fun _ _ => Triple.perform fun _ _ _ h => h

theorem ofExcept (y : Except Err α) : Quiet (ofExcept y : M B α) :=
  fun _ _ => Triple.except (fun _ _ _ h => h) fun _ h => h

theorem attempt (hx : Quiet x) : Quiet (attempt x) :=
  fun I hI => Triple.attempt ((hx I hI).mono (fun _ h => h) (fun _ _ h => h) fun _ h _ => h)

theorem get {f : PassState → M B β} (hf : ∀ p, Quiet (f p)) : Quiet ((getThe PassState : M B PassState) >>= f) :=
  fun I hI => Triple.get fun p hp => (hf p I hI).pre fun _ h => h ▸ hp

theorem getState : Quiet (getState : M B StateFile) := get fun _ => pure _

theorem setState (g : StateFile → StateFile) : Quiet (setState g : M B Unit) :=
  fun _ hI => .modify fun p h => hI p (g p.state) p.token h

theorem ite {c : Prop} [Decidable c] {y : M B α} (hx : Quiet x) (hy : Quiet y) : Quiet (if c then x else y) :=
  fun I hI => .ite (fun _ => hx I hI) fun _ => hy I hI

theorem joined {c : Prop} [Decidable c] {x : M B Unit} {f : Unit → M B β} (hx : Quiet x) (hf : ∀ u, Quiet (f u)) :
    Quiet (if c then x >>= f else f ()) := ite (hx.bind hf) (hf ())

variable (r : Reclaimer)

theorem unlessDry {x : M B Unit} (hx : Quiet x) : Quiet (unlessDry r x) := ite (pure _) hx

theorem checkLease : Quiet (checkLease r : M B Unit) :=
  getState.bind fun _ => joined (throw _) fun _ => (perform _).bind fun _ => ite (throw _) (pure _)

theorem loadSnapshot (partition : UInt32) : Quiet (loadSnapshot r partition : M B MaintenanceSnapshot) :=
  (perform _).bind fun _ => (ofExcept _).bind fun _ => (ofExcept _).bind fun _ => pure _

theorem recheckFloor (partition : UInt32) (safeFloor : UInt64) : Quiet (recheckFloor r partition safeFloor : M B Unit) :=
  (loadSnapshot r partition).bind fun _ => ite (throw _) (pure _)

theorem recheckEpoch (partition : UInt32) (writerEpoch : UInt64) (plan : Plan) :
    Quiet (recheckEpoch r partition writerEpoch plan : M B Bool) :=
  ite (pure _) ((loadSnapshot r partition).bind fun _ => pure _)

/-! What the deletes ask for -/

theorem waitForDeleteBudget (objects : Nat) : Quiet (waitForDeleteBudget r objects : M B Unit) := by
  refine (perform _).bind fun err => ?_
  cases err with
  | some err => exact throw _
  | none =>
    refine ite (pure _) ((perform _).bind fun err => ?_)
    cases err with
    | some err => exact throw _
    | none =>
      refine (perform _).bind fun err => ?_
      cases err with
      | some err => exact throw _
      | none => exact pure _

theorem mayDelete (objects : Nat) : Quiet (mayDelete r objects : M B Unit) :=
  (waitForDeleteBudget r objects).bind fun _ => checkLease r

theorem deleteWave (candidates : List DeleteCandidate) : Quiet (deleteWave r candidates : M B (List (Option Err))) := by
  refine ite ?_ ?_
  · refine (attempt (mayDelete r _)).bind fun out => ?_
    cases out with
    | error err => exact pure _
    | ok _ => exact (perform _).bind fun _ => ite (pure _) (pure _)
  · induction candidates with
    | nil => exact pure _
    | cons candidate candidates ih =>
      refine bind ?_ fun err => ih.bind fun errs => pure _
      refine (attempt (mayDelete r 1)).bind fun out => ?_
      cases out with
      | error err => exact pure _
      | ok _ => exact perform _

/-! What the catalog refers to -/

theorem referencedFrom (partition : UInt32) (physicalKeys : List String) (throughLSN : UInt64) (turns : Nat) :
    ∀ next observed referenced, Quiet (referencedFrom r partition physicalKeys throughLSN turns next observed referenced :
      M B (MaintenanceSnapshot × List String)) := by
  induction turns with
  | zero => exact fun _ _ _ => throw _
  | succ turns ih =>
    intro next observed referenced
    refine (perform _).bind fun answer => (ofExcept _).bind fun out => (ofExcept _).bind fun seen => ?_
    exact ite (pure _) (ite (throw _) (ih _ _ _))

theorem referencedAmong (snapshot : MaintenanceSnapshot) (partition : UInt32) (objects : List Sink.SegmentObjectKey) :
    Quiet (referencedAmong r snapshot partition objects : M B (MaintenanceSnapshot × List String)) :=
  ite (pure _) (referencedFrom r _ _ _ _ _ _ _)

theorem reachableFrom (partition : UInt32) (level : UInt8) (physicalKeys : List String) (throughSeqLo : UInt64) (turns : Nat) :
    ∀ next observed reachable, Quiet (reachableFrom r partition level physicalKeys throughSeqLo turns next observed reachable :
      M B (MaintenanceSnapshot × List String)) := by
  induction turns with
  | zero => exact fun _ _ _ => throw _
  | succ turns ih =>
    intro next observed reachable
    refine (perform _).bind fun answer => (ofExcept _).bind fun out => (ofExcept _).bind fun seen => ?_
    exact ite (pure _) (ite (throw _) (ih _ _ _))

theorem reachableAmong (snapshot : MaintenanceSnapshot) (partition : UInt32) (level : UInt8) (objects : List Blob.PageObjectKey) :
    Quiet (reachableAmong r snapshot partition level objects : M B (MaintenanceSnapshot × List String)) :=
  ite (pure _) (reachableFrom r _ _ _ _ _ _ _ _)

theorem reachableByLevel (partition : UInt32) (checks : List Blob.PageObjectKey) (levels : List UInt8) :
    Quiet (reachableByLevel r partition checks levels : M B (List Reachable)) := by
  induction levels with
  | nil => exact pure _
  | cons level levels ih => exact (reachableFrom r _ _ _ _ _ _ _ _).bind fun _ => ih.bind fun _ => pure _

/-! What writes the state -/

variable [StateJSON B] [Hashes]

omit [Hashes] in
theorem marshalState (state : StateFile) (streamID : String) (partition : UInt32) :
    Quiet (marshalState state streamID partition : M B B) :=
  (perform _).bind fun _ => (ofExcept _).bind fun _ => pure _

theorem loadState (partition : UInt32) : Quiet (loadState r partition : M B (StateFile × Blobstore.Token)) := by
  refine (perform _).bind fun answer => ?_
  cases answer with
  | error err => exact ite (pure _) (throw _)
  | ok obj => exact (ofExcept _).bind fun _ => pure _

theorem acquireFrom (partition : UInt32) (now : Int) (attempts : Nat) :
    Quiet (acquireFrom r partition now attempts : M B Unit) := by
  induction attempts with
  | zero => exact throw _
  | succ attempts ih =>
    refine (loadState r partition).bind fun loaded => ite (throw _) ?_
    refine (marshalState _ _ _).bind fun body => (perform _).bind fun answer => (ofExcept _).bind fun out => ite ?_ ih
    exact fun _ hI => .modify fun p h => hI p _ _ h

theorem swapState (conflict : String) : Quiet (swapState r conflict : M B Unit) := by
  refine get fun p => (marshalState _ _ _).bind fun body => (perform _).bind fun answer => (ofExcept _).bind fun out => ?_
  exact ite (fun _ hI => .modify fun p h => hI p p.state _ h) (throw _)

theorem saveState : Quiet (saveState r : M B Unit) :=
  (perform _).bind fun _ => (setState _).bind fun _ => swapState r _

theorem release : Quiet (release r : M B Unit) :=
  (setState _).bind fun _ => (perform _).bind fun _ => (setState _).bind fun _ => swapState r _

theorem checkpoint (after : AfterKey) (key : String) : Quiet (checkpoint r after key : M B Unit) :=
  getState.bind fun _ => ite (pure _) ((setState _).bind fun _ => saveState r)

theorem failDeletes (after : AfterKey) (key : String) (err : Err) : Quiet (failDeletes r after key err : M B α) := by
  refine (attempt (checkpoint r after key)).bind fun out => ?_
  cases out with
  | ok _ => exact throw _
  | error _ => exact throw _

end Quiet

end ObjLog.Lifecycle
