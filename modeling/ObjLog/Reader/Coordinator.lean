import Mathlib.Logic.Function.Basic
import ObjLog.Pmeta
/-!
# The refresh coordinator, `reader/api.go`

The heads a reader keeps: one per watched partition, and an LRU of the others.
Each definition is one critical section of the coordinator's mutex. `stored` is
what a lookup of the partition would find; the lemmas say that only
`updateHead` puts a head there.

Channels and the poll loop's own handles carry no head and are left out.
-/

namespace ObjLog.Reader

open Pmeta
open Function (update update_of_ne)

/-- A catalog snapshot: the head, and how many heads the partition had when it was the newest. -/
structure Snapshot where
  generation : Nat
  head : PartitionHead
deriving DecidableEq

/-- `partitionState`; no snapshot where `hasHead` is false. -/
structure PartitionState where
  snapshot : Option Snapshot
  generation : UInt64
  refs : Int
deriving DecidableEq

/-- `refreshCoordinator`; `cachedHeads` has the most recently used first. -/
structure Coordinator where
  maxCachedPartitionHeads : Int
  cachedHeads : List (UInt32 × Snapshot)
  watches : UInt32 → Option PartitionState
  nextGeneration : UInt64
  closed : Bool

/-- `newRefreshCoordinator`. -/
def newRefreshCoordinator (maxCachedPartitionHeads : Int) : Coordinator :=
  ⟨maxCachedPartitionHeads, [], fun _ => none, 0, false⟩

namespace Coordinator

def nextGenerationLocked (c : Coordinator) : UInt64 × Coordinator :=
  let next := c.nextGeneration + 1
  let next := if next = 0 then next + 1 else next
  (next, { c with nextGeneration := next })

def removeCachedHeadLocked (c : Coordinator) (partition : UInt32) : Coordinator :=
  { c with cachedHeads := c.cachedHeads.filter (fun e => e.1 != partition) }

/-- A present entry moves to the front; a new one may push the oldest out. -/
def cacheHeadLocked (c : Coordinator) (partition : UInt32) (snapshot : Snapshot) : Coordinator :=
  match c.cachedHeads.lookup partition with
  | some _ => { c with cachedHeads := (partition, snapshot) :: c.cachedHeads.filter (fun e => e.1 != partition) }
  | none => { c with cachedHeads := ((partition, snapshot) :: c.cachedHeads).take c.maxCachedPartitionHeads.toNat }

def isClosed (c : Coordinator) : Bool := c.closed

/-- `partitionSnapshot`: a hit in the LRU moves to the front. -/
def partitionSnapshot (c : Coordinator) (partition : UInt32) : Option (Snapshot × UInt64) × Coordinator :=
  if c.closed then (none, c)
  else
    match (c.watches partition).bind fun state => state.snapshot.map fun snapshot => (snapshot, state.generation) with
    | some found => (some found, c)
    | none =>
      match c.cachedHeads.lookup partition with
      | some snapshot => (some (snapshot, 0), c.cacheHeadLocked partition snapshot)
      | none => (none, c)

def watchPartition (c : Coordinator) (partition : UInt32) : Coordinator :=
  if c.closed then c
  else
    match c.watches partition with
    | some state => { c with watches := Function.update c.watches partition (some { state with refs := state.refs + 1 }) }
    | none =>
      match c.cachedHeads.lookup partition with
      | some snapshot =>
        let (generation, c) := c.nextGenerationLocked
        let c := c.removeCachedHeadLocked partition
        { c with watches := Function.update c.watches partition (some ⟨some snapshot, generation, 1⟩) }
      | none => { c with watches := Function.update c.watches partition (some ⟨none, 0, 1⟩) }

def unwatchPartition (c : Coordinator) (partition : UInt32) : Coordinator :=
  match c.watches partition with
  | none => c
  | some state =>
    if state.refs > 1 then
      { c with watches := Function.update c.watches partition (some { state with refs := state.refs - 1 }) }
    else
      let c := { c with watches := Function.update c.watches partition none }
      match state.snapshot with
      | some snapshot => c.cacheHeadLocked partition snapshot
      | none => c

def updateHead (c : Coordinator) (partition : UInt32) (snapshot : Snapshot) : UInt64 × Coordinator :=
  if c.closed then (0, c)
  else
    match c.watches partition with
    | some state =>
      if state.snapshot.map (·.head) = some snapshot.head then
        (state.generation,
          { c with watches := Function.update c.watches partition (some { state with snapshot := some snapshot }) })
      else
        let (generation, c) := c.nextGenerationLocked
        (generation,
          { c with watches := Function.update c.watches partition (some ⟨some snapshot, generation, state.refs⟩) })
    | none => (0, c.cacheHeadLocked partition snapshot)

/-- `close`, up to the shutdown of the load group. -/
def close (c : Coordinator) : Coordinator :=
  if c.closed then c else { c with closed := true, watches := fun _ => none, cachedHeads := [] }

/-! ## What is stored -/

/-- The head kept for the partition. -/
def stored (c : Coordinator) (partition : UInt32) : Option Snapshot :=
  match (c.watches partition).bind PartitionState.snapshot with
  | some snapshot => some snapshot
  | none => c.cachedHeads.lookup partition

/-- A watched partition has no entry in the LRU. -/
def Apart (c : Coordinator) : Prop :=
  ∀ partition, c.watches partition ≠ none → c.cachedHeads.lookup partition = none

variable {c : Coordinator} {p q : UInt32} {s t : Snapshot}

theorem lookup_filter_ne (l : List (UInt32 × Snapshot)) (p q : UInt32) :
    (l.filter (fun e => e.1 != p)).lookup q = if q = p then none else l.lookup q := by
  induction l with
  | nil => simp
  | cons e l ih =>
    obtain ⟨r, u⟩ := e
    by_cases hr : r = p
    · subst hr
      by_cases hq : q = r
      · subst hq
        simpa using ih
      · have hbeq : (q == r) = false := by simpa using hq
        simp [ih, hq, List.lookup_cons, hbeq]
    · have hne : (r != p) = true := by simpa using hr
      by_cases hq : q = r
      · subst hq
        simp [hne, hr]
      · have hbeq : (q == r) = false := by simpa using hq
        simp [hne, List.lookup_cons, hbeq, ih]

theorem lookup_of_take (l : List (UInt32 × Snapshot)) (n : Nat) (h : (l.take n).lookup p = some s) :
    l.lookup p = some s := by
  induction l generalizing n with
  | nil => simp at h
  | cons e l ih =>
    cases n with
    | zero => simp at h
    | succ n =>
      obtain ⟨r, u⟩ := e
      simp only [List.take_succ_cons, List.lookup_cons] at h ⊢
      split
      · rename_i hb
        simpa [hb] using h
      · rename_i hb
        simp only [hb] at h
        exact ih n h

theorem lookup_cacheHeadLocked (h : (c.cacheHeadLocked p s).cachedHeads.lookup q = some t) :
    (q = p ∧ t = s) ∨ (q ≠ p ∧ c.cachedHeads.lookup q = some t) := by
  by_cases hq : q = p
  · subst hq
    refine .inl ⟨rfl, ?_⟩
    unfold cacheHeadLocked at h
    split at h
    · simpa using h.symm
    · have := lookup_of_take _ _ h
      simpa using this.symm
  · refine .inr ⟨hq, ?_⟩
    have hbeq : (q == p) = false := by simpa using hq
    unfold cacheHeadLocked at h
    split at h
    · simpa [List.lookup_cons, hbeq, lookup_filter_ne, hq] using h
    · have := lookup_of_take _ _ h
      simpa [List.lookup_cons, hbeq] using this

@[simp] theorem cacheHeadLocked_watches : (c.cacheHeadLocked p s).watches = c.watches := by
  unfold cacheHeadLocked
  split <;> rfl

/-- Where `c'` comes from `c`, it stores nothing new apart from `put`. -/
structure Keeps (c c' : Coordinator) (put : Option (UInt32 × Snapshot)) : Prop where
  apart : c'.Apart
  stored : ∀ q t, c'.stored q = some t → c.stored q = some t ∨ put = some (q, t)

theorem Keeps.refl (h : c.Apart) : Keeps c c none := ⟨h, fun _ _ => .inl⟩

/-- An entry of the LRU replaced or added, for a partition that is not watched. -/
theorem keeps_cacheHeadLocked (h : c.Apart) (hp : c.watches p = none) :
    Keeps c (c.cacheHeadLocked p s) (some (p, s)) := by
  constructor
  · intro q hq
    simp only [cacheHeadLocked_watches] at hq
    have hne : q ≠ p := fun hqp => hq (hqp ▸ hp)
    cases hl : (c.cacheHeadLocked p s).cachedHeads.lookup q with
    | none => rfl
    | some t =>
      rcases lookup_cacheHeadLocked hl with ⟨rfl, -⟩ | ⟨-, hold⟩
      · exact absurd rfl hne
      · rw [h q hq] at hold
        cases hold
  · intro q t hstored
    unfold stored at hstored ⊢
    rw [cacheHeadLocked_watches] at hstored
    cases hw : (c.watches q).bind PartitionState.snapshot with
    | some u => exact .inl (by simpa [hw] using hstored)
    | none =>
      rw [hw] at hstored
      rcases lookup_cacheHeadLocked hstored with ⟨rfl, rfl⟩ | ⟨-, hold⟩
      · exact .inr rfl
      · exact .inl hold

/-- The watch of one partition changed, its entry in the LRU gone. -/
theorem keeps_watch (h : c.Apart) {c' : Coordinator} (state : PartitionState) (put : Option (UInt32 × Snapshot))
    (hwatches : c'.watches = update c.watches p (some state))
    (hcached : ∀ q, c'.cachedHeads.lookup q = if q = p then none else c.cachedHeads.lookup q)
    (hstate : ∀ t, state.snapshot = some t → c.stored p = some t ∨ put = some (p, t)) : Keeps c c' put := by
  constructor
  · intro q hq
    rw [hcached]
    split
    · rfl
    · rename_i hne
      rw [hwatches, update_of_ne hne] at hq
      exact h q hq
  · intro q t hstored
    unfold stored at hstored
    rw [hwatches, hcached] at hstored
    by_cases hq : q = p
    · subst hq
      simp only [Function.update_self, Option.bind_some, if_true] at hstored
      cases hs : state.snapshot with
      | none => simp [hs] at hstored
      | some u =>
        simp only [hs, Option.some.injEq] at hstored
        exact hstored ▸ hstate u hs
    · rw [update_of_ne hq, if_neg hq] at hstored
      exact .inl hstored

theorem Apart.watched (h : c.Apart) {state : PartitionState} (hw : c.watches p = some state) (q : UInt32) :
    c.cachedHeads.lookup q = if q = p then none else c.cachedHeads.lookup q := by
  split
  · rename_i hq
    exact h q (by rw [hq, hw]; nofun)
  · rfl

theorem stored_of_watch {state : PartitionState} (hw : c.watches p = some state) (hs : state.snapshot = some s) :
    c.stored p = some s := by
  simp [stored, hw, hs]

theorem stored_of_cached (hw : c.watches p = none) : c.stored p = c.cachedHeads.lookup p := by
  simp [stored, hw]

/-- A lookup finds what is stored, and stores nothing. -/
theorem partitionSnapshot_spec (h : c.Apart) :
    (∀ found, (c.partitionSnapshot p).1 = some found → c.stored p = some found.1) ∧
      Keeps c (c.partitionSnapshot p).2 none := by
  unfold partitionSnapshot
  split
  · exact ⟨nofun, .refl h⟩
  · split
    · rename_i found hfound
      refine ⟨?_, .refl h⟩
      rintro _ ⟨⟩
      obtain ⟨state, hstate, hmap⟩ := Option.bind_eq_some_iff.1 hfound
      obtain ⟨snapshot, hsnapshot, rfl⟩ := Option.map_eq_some_iff.1 hmap
      exact stored_of_watch hstate hsnapshot
    · rename_i hnone
      split
      · rename_i snapshot hcached
        have hw : c.watches p = none := by
          by_contra hwatched
          rw [h p hwatched] at hcached
          cases hcached
        refine ⟨?_, ?_⟩
        · rintro _ ⟨⟩
          rw [stored_of_cached hw, hcached]
        · have hk := keeps_cacheHeadLocked (s := snapshot) h hw
          refine ⟨hk.apart, fun q t hq => .inl ?_⟩
          rcases hk.stored q t hq with hold | hput
          · exact hold
          · cases hput
            rw [stored_of_cached hw, hcached]
      · exact ⟨nofun, .refl h⟩

theorem watchPartition_keeps (h : c.Apart) : Keeps c (c.watchPartition p) none := by
  unfold watchPartition
  split
  · exact .refl h
  · split
    · rename_i state hw
      exact keeps_watch h _ none rfl (h.watched hw) fun t ht => .inl (stored_of_watch hw ht)
    · rename_i hw
      split
      · rename_i snapshot hcached
        refine keeps_watch h ⟨some snapshot, c.nextGenerationLocked.1, 1⟩ none rfl (lookup_filter_ne _ p) ?_
        rintro t ⟨⟩
        exact .inl (by rw [stored_of_cached hw, hcached])
      · rename_i hcached
        refine keeps_watch h ⟨none, 0, 1⟩ none rfl (fun q => ?_) nofun
        split
        · rename_i hq
          exact hq ▸ hcached
        · rfl

theorem unwatchPartition_keeps (h : c.Apart) : Keeps c (c.unwatchPartition p) none := by
  unfold unwatchPartition
  split
  · exact .refl h
  · rename_i state hw
    split
    · exact keeps_watch h _ none rfl (h.watched hw) fun t ht => .inl (stored_of_watch hw ht)
    · -- the last subscription ends: a head it had goes to the LRU
      have hgone : Keeps c { c with watches := update c.watches p none } none := by
        refine ⟨fun q hq => ?_, fun q t hq => .inl ?_⟩
        · by_cases hqp : q = p
          · subst hqp
            simp at hq
          · have hwatched : c.watches q ≠ none := by simpa [update_of_ne hqp] using hq
            exact h q hwatched
        · by_cases hqp : q = p
          · subst hqp
            simp [stored, h q (by rw [hw]; nofun)] at hq
          · simpa [stored, update_of_ne hqp] using hq
      dsimp only
      split
      · rename_i snapshot hsnapshot
        have hk := keeps_cacheHeadLocked (p := p) (s := snapshot) hgone.apart (by simp)
        refine ⟨hk.apart, fun q t hq => .inl ?_⟩
        rcases hk.stored q t hq with hold | hput
        · exact (hgone.stored q t hold).resolve_right nofun
        · cases hput
          exact stored_of_watch hw hsnapshot
      · exact hgone

theorem updateHead_keeps (h : c.Apart) : Keeps c (c.updateHead p s).2 (some (p, s)) := by
  unfold updateHead
  split
  · exact ⟨h, fun _ _ => .inl⟩
  · split
    · rename_i state hw
      split
      · exact keeps_watch h _ _ rfl (h.watched hw) fun t ht => .inr (by cases ht; rfl)
      · exact keeps_watch h ⟨some s, c.nextGenerationLocked.1, state.refs⟩ _ rfl (h.watched hw)
          fun t ht => .inr (by cases ht; rfl)
    · rename_i hw
      exact keeps_cacheHeadLocked h hw

theorem close_keeps (h : c.Apart) : Keeps c c.close none := by
  unfold close
  split
  · exact .refl h
  · exact ⟨fun _ hq => absurd rfl hq, fun q t hq => by simp [stored] at hq⟩

end Coordinator

/-! ## Cursors -/

/-- `LSNExpiredError`. -/
def lsnExpired (requested oldest headNext : UInt64) : Err :=
  .of (.reader .lsnExpired) s!"requested={requested} oldest={oldest} head_next={headNext}"

def cursorCheckpointVersion : UInt16 := 1

structure CursorCheckpoint where
  version : UInt16
  streamID : String
  partition : UInt32
  nextLSN : UInt64
deriving DecidableEq

structure Cursor where
  partition : UInt32
  streamID : String
  bound : Bool
  nextLSN : UInt64
  limit : Int64
  segmentHint : Option SegmentRef
  closed : Bool
deriving DecidableEq

/-- `ResumeCursor`, given whether the reader is open and what the refresh returned. -/
def resumeCursor (partition : UInt32) (opened : Except Err Unit) (checkpoint : CursorCheckpoint) (limit : Int64)
    (refreshed : Except Err PartitionHead) : Except Err Cursor := do
  opened
  failIf (limit < 0) (.of (.reader .invalidRequest) s!"limit={limit}")
  failIf (checkpoint.version ≠ cursorCheckpointVersion)
    (.of (.reader .checkpointInvalid) s!"version={checkpoint.version} want={cursorCheckpointVersion}")
  failIf (checkpoint.partition ≠ partition)
    (.of (.reader .checkpointMismatch) s!"checkpoint partition={checkpoint.partition} reader partition={partition}")
  let head ← refreshed
  failIf (head.partition ≠ partition)
    (.of (.reader .corruptData) s!"head partition={head.partition} reader partition={partition}")
  failIf (checkpoint.streamID ≠ head.streamID)
    (.of (.reader .checkpointMismatch)
      s!"checkpoint stream_id={checkpoint.streamID.quote} head stream_id={head.streamID.quote}")
  failIf (checkpoint.nextLSN < head.oldestLSN) (lsnExpired checkpoint.nextLSN head.oldestLSN head.nextLSN)
  failIf (checkpoint.nextLSN > head.nextLSN)
    (.of (.reader .checkpointAhead) s!"checkpoint next_lsn={checkpoint.nextLSN} head_next={head.nextLSN}")
  return ⟨partition, checkpoint.streamID, true, checkpoint.nextLSN, limit, none, false⟩

namespace Cursor

def bind (c : Cursor) (head : PartitionHead) : Except Err Cursor := do
  failIf (head.partition ≠ c.partition)
    (.of (.reader .corruptData) s!"head partition={head.partition} reader partition={c.partition}")
  failIf (c.bound ∧ c.streamID ≠ head.streamID)
    (.of (.reader .checkpointMismatch) s!"cursor stream_id={c.streamID.quote} head stream_id={head.streamID.quote}")
  return { c with streamID := head.streamID, bound := true }

/-- `Checkpoint`, given what the refresh returned. A failed validation drops the segment hint. -/
def checkpoint (c : Cursor) (refreshed : Except Err PartitionHead) : Cursor × Except Err CursorCheckpoint :=
  if c.closed then (c, .error (.of (.reader .invalidRequest) "cursor closed"))
  else
    match refreshed with
    | .error e => (c, .error e)
    | .ok head =>
      match c.bind head with
      | .error e => ({ c with segmentHint := none }, .error e)
      | .ok c =>
        if c.nextLSN < head.oldestLSN then
          ({ c with segmentHint := none }, .error (lsnExpired c.nextLSN head.oldestLSN head.nextLSN))
        else if c.nextLSN > head.nextLSN then
          ({ c with segmentHint := none },
            .error (.of (.reader .checkpointAhead) s!"cursor next_lsn={c.nextLSN} head_next={head.nextLSN}"))
        else (c, .ok ⟨cursorCheckpointVersion, c.streamID, c.partition, c.nextLSN⟩)

end Cursor

end ObjLog.Reader
