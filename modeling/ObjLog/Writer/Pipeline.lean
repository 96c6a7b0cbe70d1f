import ObjLog.Writer.Writer
/-!
# The segments of a writer on their way to the catalog

What a goroutine may do to the pipeline, move by move, and what every move
keeps. While the writer is not terminal the pieces of the pipeline lie end to
end from the committed head to the next LSN (`Running`). A writer whose pieces
are all published stays so until its caller acts (`Drained`).
-/

namespace ObjLog.Writer

open Lib Catformat Pmeta
open Option (some_ne_none toList_none toList_some)

variable {sw : Segwriter.Writer} {a : ActiveSegment} {d : DetachedSegment} {r : ReadySegment}

/-! ## Pieces -/

/-- Some consecutive records and the LSN they begin at. -/
structure Piece where
  base : UInt64
  records : List Segwriter.Record

def ActiveSegment.piece (a : ActiveSegment) : Piece := ⟨a.baseLSN, a.writer.records⟩

def DetachedSegment.piece (d : DetachedSegment) : Piece := ⟨d.baseLSN, d.writer.records⟩

def ReadySegment.piece (r : ReadySegment) : Piece := ⟨r.expectedNextLSN, r.records⟩

/-- The pieces from `a` on lie end to end up to `b`. -/
abbrev LaidOut : Nat → Nat → List Piece → Prop :=
  Spans Segwriter.Record.number Segwriter.Record.number (·.base.toNat) (·.records)

namespace Pipeline

variable (p : Pipeline)

/-- The segments that have been cut, in ready order, then the one being finalized, then the queue. -/
def cutPieces : List Piece :=
  p.ready.map ReadySegment.piece ++ (p.finalizing.toList.map DetachedSegment.piece ++
    p.detached.map DetachedSegment.piece)

def pieces : List Piece := p.cutPieces ++ p.active.toList.map ActiveSegment.piece

/-- The cut numbers of the segments in flight. -/
def queue : List Nat := p.ready.map (·.seq) ++ (p.finalizing.toList.map (·.seq) ++ p.detached.map (·.seq))

/-- The number of segment writers in use. -/
def inUse : Nat :=
  p.finalizing.toList.length + p.detached.length + p.active.toList.length + p.discarding.toList.length

end Pipeline

/-- An active segment counts its records. -/
structure ActiveSegment.Ok (a : ActiveSegment) : Prop where
  numbered : a.writer.Numbered
  closed : a.writer.closed = false
  records : a.records = a.writer.recordCount
  base : a.writer.hasRecords = true → a.writer.baseLSN = a.baseLSN

structure DetachedSegment.Ok (d : DetachedSegment) : Prop where
  numbered : d.writer.Numbered
  closed : d.writer.closed = false
  hasRecords : d.writer.hasRecords = true
  base : d.writer.baseLSN = d.baseLSN

structure ReadySegment.Ok (r : ReadySegment) : Prop where
  base : r.segment.baseLSN = r.expectedNextLSN
  tiles : Tiles Segwriter.Record.number Segwriter.Record.number r.expectedNextLSN.toNat r.segment.nextLSN.toNat r.records

/-- A segment writer as `New` returns it. -/
structure Fresh (sw : Segwriter.Writer) : Prop where
  numbered : sw.Numbered
  records : sw.records = []
  hasRecords : sw.hasRecords = false
  recordCount : sw.recordCount = 0
  closed : sw.closed = false

def newSegment (lsn : UInt64) (sw : Segwriter.Writer) : ActiveSegment := ⟨sw, lsn, 0, 0, 0⟩

theorem Fresh.ok (h : Fresh sw) (lsn : UInt64) : (newSegment lsn sw).Ok :=
  ⟨h.numbered, h.closed, h.recordCount.symm, fun hyes => by simp [newSegment, h.hasRecords] at hyes⟩

theorem ActiveSegment.Ok.records_eq_zero (h : a.Ok) : a.records = 0 ↔ a.writer.records = [] := by
  rw [h.records, ← UInt32.toNat_inj, h.numbered.count]
  simp

theorem ActiveSegment.Ok.hasRecords (h : a.Ok) (hne : a.records ≠ 0) : a.writer.hasRecords = true := by
  by_contra hno
  exact hne (h.records_eq_zero.2 (h.numbered.none (Bool.not_eq_true _ ▸ hno)))

/-! ## Moves -/

namespace Pipeline

variable (p : Pipeline)

def terminate (g : Goroutine) : Pipeline :=
  { p with
    aborted := true
    active := none
    detached := []
    ready := []
    terminatedBy := if p.aborted then p.terminatedBy else some g
    abandoned := if p.aborted then p.abandoned
      else p.active.toList.map (·.writer) ++ p.detached.map (·.writer) }

def accept (record : Record) (a : ActiveSegment) : Pipeline :=
  { p with
    optimisticNextLSN := p.optimisticNextLSN + 1
    hasTimestamp := true
    lastTimestamp := record.timestampMS
    active := some a
    accepted := p.accepted ++ [record.at p.optimisticNextLSN] }

/-- The transition ends with it. -/
def detach (d : DetachedSegment) (fresh : Option ActiveSegment) : Pipeline :=
  { p with
    active := fresh
    activeTransition := none
    detached := p.detached ++ [d]
    nextCutSeq := p.nextCutSeq + 1
    inflightSegments := p.inflightSegments + 1
    started := p.started + fresh.toList.length }

def finalized (r : ReadySegment) (sw : Segwriter.Writer) : Pipeline :=
  { p with
    ready := p.ready ++ [r]
    finalizing := none
    retired := p.retired ++ [sw] }

def calling (r : ReadySegment) : Pipeline :=
  { p with
    calls := p.calls ++ [⟨r.seq, r.segment.baseLSN, p.committed.head.nextLSN, p.outstanding⟩]
    outstanding := some r.seq }

def publishedSegment (r : ReadySegment) (next : Snapshot) : Pipeline :=
  let popped := p.ready.head?.elim false (·.seq = r.seq)
  { p with
    ready := if popped then p.ready.tail else p.ready
    inflightSegments := if popped then p.inflightSegments - 1 else p.inflightSegments
    committed := next
    publishing := none
    committedSeq := p.committedSeq + 1
    outstanding := none
    published := p.published ++ r.records }

end Pipeline

/-- What one goroutine may do to the pipeline. -/
inductive Move : Goroutine → Pipeline → Pipeline → Prop
  | begin {g : Goroutine} {p : Pipeline} {a : ActiveSegment} : p.activeTransition = none → p.closed = false →
      p.active = some a → a.records ≠ 0 → Move g p { p with activeTransition := some g }
  | finish {g : Goroutine} {p : Pipeline} : p.activeTransition = some g → Move g p { p with activeTransition := none }
  | detach {g : Goroutine} {p : Pipeline} {old : ActiveSegment} {d : DetachedSegment} {fresh : Option ActiveSegment} :
      p.activeTransition = some g → p.active = some old → old.records ≠ 0 →
      d.seq = p.nextCutSeq → d.baseLSN = old.baseLSN → d.writer = old.writer →
      (∀ a, fresh = some a → ∃ sw, Fresh sw ∧ a = newSegment p.optimisticNextLSN sw) → Move g p (p.detach d fresh)
  | start {p : Pipeline} {sw : Segwriter.Writer} : p.activeTransition = none → p.closed = false → p.aborted = false →
      p.active = none → Fresh sw →
      Move .foreground p { p with active := some (newSegment p.optimisticNextLSN sw), started := p.started + 1 }
  | accept {p : Pipeline} {record : Record} {a a' : ActiveSegment} : p.activeTransition = none →
      p.active = some a → p.optimisticNextLSN ≠ maxUint64 → (p.hasTimestamp = true → p.lastTimestamp ≤ record.timestampMS) →
      Segwriter.Appended a.writer (record.at p.optimisticNextLSN) a'.writer → a'.baseLSN = a.baseLSN →
      a'.records = a.records + 1 → Move .foreground p (p.accept record a')
  | refuse {p : Pipeline} {a : ActiveSegment} {sw : Segwriter.Writer} : p.activeTransition = none →
      p.active = some a → Segwriter.SameRecords a.writer sw →
      Move .foreground p { p with active := some { a with writer := sw } }
  | take {p : Pipeline} {a : ActiveSegment} : p.activeTransition = none → p.active = some a → a.records = 0 →
      p.discarding = none → Move .foreground p { p with active := none, discarding := some a }
  | discard {p : Pipeline} {a : ActiveSegment} {sw : Segwriter.Writer} : p.discarding = some a →
      sw.closed = false → sw.aborted = true →
      Move .foreground p { p with discarding := none, retired := p.retired ++ [sw] }
  | close {p : Pipeline} : p.aborted = false → p.active = none → p.discarding = none → p.inflightSegments = 0 →
      Move .foreground p { p with closed := true }
  | pop {p : Pipeline} {d : DetachedSegment} {rest : List DetachedSegment} : p.detached = d :: rest →
      p.finalizing = none → Move .finalize p { p with detached := rest, finalizing := some d }
  | finalized {p : Pipeline} {d : DetachedSegment} {r : ReadySegment} {sw : Segwriter.Writer} : p.finalizing = some d →
      r.seq = d.seq → r.expectedNextLSN = d.baseLSN → r.segment.baseLSN = d.writer.baseLSN →
      r.segment.nextLSN = d.writer.nextLSN → r.records = d.writer.records → sw.closed = true → sw.aborted = false →
      Move .finalize p (p.finalized r sw)
  | look {p : Pipeline} {r : ReadySegment} : p.ready.head? = some r → p.outstanding = none →
      Move .publish p { p with publishing := some r }
  | call {p : Pipeline} {r : ReadySegment} : p.publishing = some r → p.outstanding = none →
      Move .publish p (p.calling r)
  | published {p : Pipeline} {r : ReadySegment} {next : Snapshot} : p.sessionMu = some .publish →
      p.publishing = some r → p.outstanding = some r.seq → next.head.nextLSN = r.segment.nextLSN →
      Move .publish p (p.publishedSegment r next)
  | retained {g : Goroutine} {p : Pipeline} {next : Snapshot} : p.sessionMu = some g →
      next.head.nextLSN = p.committed.head.nextLSN → Move g p { p with committed := next }
  | lockSession {g : Goroutine} {p : Pipeline} : p.sessionMu = none → Move g p { p with sessionMu := some g }
  | unlockSession {g : Goroutine} {p : Pipeline} : p.sessionMu = some g → Move g p { p with sessionMu := none }
  | terminate {g : Goroutine} {p : Pipeline} : Move g p (p.terminate g)

/-! ## The invariant -/

/-- The pipeline of a writer that is not terminal. -/
structure Running (p : Pipeline) : Prop where
  laidOut : LaidOut p.committed.head.nextLSN.toNat p.optimisticNextLSN.toNat p.pieces
  finalizing : ∀ d, p.finalizing = some d → d.Ok
  detached : ∀ d ∈ p.detached, d.Ok
  ready : ∀ r ∈ p.ready, r.Ok
  accepted : p.accepted = p.published ++ p.pieces.flatMap (·.records)
  numbered : ∃ first, Tiles Segwriter.Record.number Segwriter.Record.number first p.optimisticNextLSN.toNat p.accepted
  sorted : p.accepted.Pairwise (·.timestampMS ≤ ·.timestampMS)
  last : ∀ r ∈ p.accepted, p.hasTimestamp = true ∧ r.timestampMS ≤ p.lastTimestamp
  queue : p.queue = List.range' p.committedSeq p.inflightSegments
  nextCutSeq : p.nextCutSeq = p.committedSeq + p.inflightSegments
  publishing : ∀ r, p.publishing = some r → p.ready.head? = some r
  seqs : p.calls.map (·.seq) = List.range (p.committedSeq + p.outstanding.toList.length)
  calls : ∀ c ∈ p.calls, c.baseLSN = c.nextLSN ∧ c.during = none
  started : p.started = p.retired.length + p.inUse
  retired : ∀ sw ∈ p.retired, sw.closed ≠ sw.aborted

/-- Everything accepted is published and no segment is in use. -/
structure Drained (p : Pipeline) : Prop where
  active : p.active = none
  discarding : p.discarding = none
  detached : p.detached = []
  finalizing : p.finalizing = none
  ready : p.ready = []
  publishing : p.publishing = none
  next : p.committed.head.nextLSN = p.optimisticNextLSN
  published : p.accepted = p.published
  started : p.started = p.retired.length
  retired : ∀ sw ∈ p.retired, sw.closed ≠ sw.aborted

structure Inv (p : Pipeline) : Prop where
  active : ∀ a, p.active = some a → a.Ok
  idle : p.aborted = true → p.active = none
  discarding : ∀ a, p.discarding = some a → a.writer.closed = false
  transition : p.activeTransition.isSome → p.aborted = true ∨ ∃ a, p.active = some a ∧ a.records ≠ 0
  running : p.aborted = false → Running p
  drained : p.closed = true → Drained p

variable {p p' : Pipeline} {g : Goroutine}

theorem Running.length_queue (h : Running p) :
    p.ready.length + (p.finalizing.toList.length + p.detached.length) = p.inflightSegments := by
  have := congrArg List.length h.queue
  simpa [Pipeline.queue] using this

/-- Nothing in flight, no active segment: all is published. -/
theorem Running.drained (h : Running p) (hactive : p.active = none) (hdiscarding : p.discarding = none)
    (hinflight : p.inflightSegments = 0) : Drained p := by
  have hlen := h.length_queue
  have hready : p.ready = [] := List.length_eq_zero_iff.1 (by omega)
  have hdetached : p.detached = [] := List.length_eq_zero_iff.1 (by omega)
  have hfinalizing : p.finalizing = none := by
    cases hf : p.finalizing with
    | none => rfl
    | some d => simp [hf] at hlen; omega
  have hpieces : p.pieces = [] := by
    simp [Pipeline.pieces, Pipeline.cutPieces, hready, hdetached, hfinalizing, hactive]
  have hlaid := h.laidOut
  have haccepted := h.accepted
  rw [hpieces] at hlaid haccepted
  refine ⟨hactive, hdiscarding, hdetached, hfinalizing, hready, ?_, UInt64.toNat_inj.1 hlaid, ?_, ?_, h.retired⟩
  · cases hp : p.publishing with
    | none => rfl
    | some r =>
      have := h.publishing r hp
      simp [hready] at this
  · simpa using haccepted
  · have := h.started
    simpa [Pipeline.inUse, hdetached, hfinalizing, hactive, hdiscarding] using this

/-! ## Each move keeps it -/

open Pipeline (pieces cutPieces inUse)

theorem toNat_succ {lsn : UInt64} (h : lsn ≠ maxUint64) : (lsn + 1).toNat = lsn.toNat + 1 := by
  have hne : lsn.toNat ≠ maxUint64.toNat := fun heq => h (UInt64.toNat_inj.1 heq)
  have hlt := lsn.toNat_lt
  simp only [maxUint64, UInt64.reduceToNat] at hne
  simp only [UInt64.toNat_add, UInt64.reduceToNat]
  omega

namespace Running

variable (h : Running p)
include h

/-- The pieces and the numbers of the segments are as before. -/
theorem detach {old : ActiveSegment} {fresh : Option ActiveSegment}
    (hactive : p.active = some old) (hold : old.Ok) (hne : old.records ≠ 0) (hseq : d.seq = p.nextCutSeq)
    (hbase : d.baseLSN = old.baseLSN) (hwriter : d.writer = old.writer)
    (hfresh : ∀ a, fresh = some a → ∃ sw, Fresh sw ∧ a = newSegment p.optimisticNextLSN sw) :
    Running (p.detach d fresh) := by
  have hpiece : d.piece = old.piece := by simp [DetachedSegment.piece, ActiveSegment.piece, hbase, hwriter]
  have hpieces : (p.detach d fresh).pieces = p.pieces ++ fresh.toList.map ActiveSegment.piece := by
    simp [pieces, cutPieces, Pipeline.detach, hactive, hpiece]
  have hempty : ∀ a, fresh = some a → a.piece = ⟨p.optimisticNextLSN, []⟩ := by
    intro a ha
    obtain ⟨sw, hsw, rfl⟩ := hfresh a ha
    simp [ActiveSegment.piece, newSegment, hsw.records]
  refine { h with
    laidOut := ?_, detached := ?_, accepted := ?_, queue := ?_, nextCutSeq := ?_, started := ?_ }
  · rw [hpieces]
    refine Spans.append_iff.2 ⟨_, h.laidOut, ?_⟩
    cases fresh with
    | none => rfl
    | some a => simp [hempty a rfl, Pipeline.detach]
  · intro x hx
    rcases mem_concat.1 hx with hx | rfl
    · exact h.detached x hx
    · exact ⟨hwriter ▸ hold.numbered, hwriter ▸ hold.closed, hwriter ▸ hold.hasRecords hne,
        by rw [hwriter, hbase, hold.base (hold.hasRecords hne)]⟩
  · rw [hpieces]
    cases fresh with
    | none => simpa [Pipeline.detach] using h.accepted
    | some a => simpa [Pipeline.detach, hempty a rfl] using h.accepted
  · have hq : (p.detach d fresh).queue = p.queue ++ [p.nextCutSeq] := by
      simp [Pipeline.queue, Pipeline.detach, hseq]
    rw [hq, h.queue, h.nextCutSeq]
    exact (List.range'_1_concat ..).symm
  · simp only [Pipeline.detach, h.nextCutSeq]
    omega
  · have := h.started
    simp only [Pipeline.detach, inUse, hactive, toList_some, List.length_singleton, List.length_append] at this ⊢
    omega

theorem start {sw : Segwriter.Writer} (hactive : p.active = none) (hsw : Fresh sw) :
    Running { p with active := some (newSegment p.optimisticNextLSN sw), started := p.started + 1 } := by
  have hpieces : ({ p with active := some (newSegment p.optimisticNextLSN sw), started := p.started + 1 } :
      Pipeline).pieces = p.pieces ++ [⟨p.optimisticNextLSN, []⟩] := by
    simp [pieces, cutPieces, hactive, ActiveSegment.piece, newSegment, hsw.records]
  refine { h with laidOut := ?_, accepted := ?_, started := ?_ }
  · rw [hpieces]
    exact Spans.append_iff.2 ⟨_, h.laidOut, by simp⟩
  · rw [hpieces]
    simpa using h.accepted
  · have := h.started
    simp only [inUse, hactive, toList_none, List.length_nil, toList_some, List.length_singleton] at this ⊢
    omega

theorem accept {record : Record} {a a' : ActiveSegment} (hactive : p.active = some a)
    (hroom : p.optimisticNextLSN ≠ maxUint64) (htime : p.hasTimestamp = true → p.lastTimestamp ≤ record.timestampMS)
    (happ : Segwriter.Appended a.writer (record.at p.optimisticNextLSN) a'.writer) (hbase : a'.baseLSN = a.baseLSN) :
    Running (p.accept record a') := by
  have hsucc := toNat_succ hroom
  have hlast : ∀ r ∈ p.accepted, r.timestampMS ≤ record.timestampMS := fun r hr =>
    Int64.le_trans (h.last r hr).2 (htime (h.last r hr).1)
  refine { h with laidOut := ?_, accepted := ?_, numbered := ?_, sorted := ?_, last := ?_, started := ?_ }
  · -- Only the last piece grows, by the record with the next number.
    obtain ⟨m, hcut, hpiece⟩ := Spans.append_iff.1 h.laidOut
    refine Spans.append_iff.2 ⟨m, hcut, ?_⟩
    rw [hactive] at hpiece
    obtain ⟨hm, htiles⟩ := Spans.singleton_iff.1 hpiece
    refine Spans.singleton_iff.2 ⟨by simpa [ActiveSegment.piece, hbase] using hm, ?_⟩
    simp only [ActiveSegment.piece, happ.records]
    refine Tiles.append_iff.2 ⟨_, htiles, ?_⟩
    simp [Segwriter.Record.number, Record.at, Pipeline.accept, hsucc]
  · simp only [Pipeline.accept, h.accepted, pieces, hactive, toList_some, List.map_cons, List.map_nil,
      List.flatMap_append, List.flatMap_singleton, ActiveSegment.piece, happ.records, List.append_assoc]
    rfl
  · obtain ⟨first, htiles⟩ := h.numbered
    refine ⟨first, Tiles.append_iff.2 ⟨_, htiles, ?_⟩⟩
    simp [Segwriter.Record.number, Record.at, Pipeline.accept, hsucc]
  · refine List.pairwise_append.2 ⟨h.sorted, List.pairwise_singleton .., fun r hr x hx => ?_⟩
    obtain rfl := List.mem_singleton.1 hx
    exact hlast r hr
  · intro r hr
    refine ⟨rfl, ?_⟩
    rcases mem_concat.1 hr with hr | rfl
    · exact hlast r hr
    · exact Int64.le_refl _
  · have := h.started
    simpa [inUse, Pipeline.accept, hactive] using this

/-- An empty active segment begins at the next LSN. -/
theorem base_of_empty (hactive : p.active = some a) (hempty : a.writer.records = []) :
    a.baseLSN = p.optimisticNextLSN := by
  obtain ⟨m, _, hpiece⟩ := Spans.append_iff.1 h.laidOut
  rw [hactive] at hpiece
  obtain ⟨hm, htiles⟩ := Spans.singleton_iff.1 hpiece
  simp only [ActiveSegment.piece, hempty, Tiles.nil_iff] at hm htiles
  exact UInt64.toNat_inj.1 (hm.trans htiles)

theorem refuse (hactive : p.active = some a)
    (hsame : Segwriter.SameRecords a.writer sw) : Running { p with active := some { a with writer := sw } } := by
  have hpieces : ({ p with active := some { a with writer := sw } } : Pipeline).pieces = p.pieces := by
    simp [pieces, cutPieces, hactive, ActiveSegment.piece, hsame.records]
  refine { h with laidOut := hpieces ▸ h.laidOut, accepted := ?_, started := ?_ }
  · rw [hpieces]
    exact h.accepted
  · have := h.started
    simpa [inUse, hactive] using this

theorem take (hactive : p.active = some a) (hempty : a.writer.records = [])
    (hdiscarding : p.discarding = none) : Running { p with active := none, discarding := some a } := by
  refine { h with laidOut := ?_, accepted := ?_, started := ?_ }
  · obtain ⟨m, hcut, hpiece⟩ := Spans.append_iff.1 h.laidOut
    rw [hactive] at hpiece
    obtain ⟨-, htiles⟩ := Spans.singleton_iff.1 hpiece
    refine Spans.append_iff.2 ⟨m, hcut, ?_⟩
    simpa [ActiveSegment.piece, hempty] using htiles
  · have := h.accepted
    simpa [pieces, cutPieces, hactive, ActiveSegment.piece, hempty] using this
  · have := h.started
    simp only [inUse, hactive, hdiscarding, toList_some, List.length_singleton, toList_none, List.length_nil] at this ⊢
    omega

theorem discard (hdiscarding : p.discarding = some a) (hclosed : sw.closed = false) (haborted : sw.aborted = true) :
    Running { p with discarding := none, retired := p.retired ++ [sw] } := by
  refine { h with started := ?_, retired := ?_ }
  · have := h.started
    simp only [inUse, hdiscarding, toList_some, List.length_singleton, toList_none,
      List.length_nil, List.length_append] at this ⊢
    omega
  · intro x hx
    rcases mem_concat.1 hx with hx | rfl
    · exact h.retired x hx
    · simp [hclosed, haborted]

theorem pop {rest : List DetachedSegment} (hdetached : p.detached = d :: rest)
    (hfinalizing : p.finalizing = none) : Running { p with detached := rest, finalizing := some d } := by
  have hcut : ({ p with detached := rest, finalizing := some d } : Pipeline).pieces = p.pieces := by
    simp [pieces, cutPieces, hdetached, hfinalizing]
  refine { h with
    laidOut := hcut ▸ h.laidOut, finalizing := ?_, detached := ?_, accepted := ?_, queue := ?_, started := ?_ }
  · rintro _ ⟨⟩
    exact h.detached d (by simp [hdetached])
  · exact fun x hx => h.detached x (by simp [hdetached, hx])
  · rw [hcut]
    exact h.accepted
  · have := h.queue
    simpa [Pipeline.queue, hdetached, hfinalizing] using this
  · have := h.started
    simp only [inUse, hdetached, hfinalizing, toList_some, toList_none, List.length_nil, List.length_cons] at this ⊢
    omega

theorem finalized (hfinalizing : p.finalizing = some d) (hseq : r.seq = d.seq) (hnext : r.expectedNextLSN = d.baseLSN)
    (hbase : r.segment.baseLSN = d.writer.baseLSN) (hend : r.segment.nextLSN = d.writer.nextLSN)
    (hrecords : r.records = d.writer.records) (hclosed : sw.closed = true) (haborted : sw.aborted = false) :
    Running (p.finalized r sw) := by
  have hpieces : (p.finalized r sw).pieces = p.pieces := by
    simp [pieces, cutPieces, Pipeline.finalized, hfinalizing, ReadySegment.piece,
      DetachedSegment.piece, hnext, hrecords]
  have hd := h.finalizing d hfinalizing
  refine { h with
    laidOut := hpieces ▸ h.laidOut, finalizing := fun _ hd => absurd hd.symm (some_ne_none _), ready := ?_, accepted := ?_,
    queue := ?_, publishing := ?_, started := ?_, retired := ?_ }
  · intro x hx
    rcases mem_concat.1 hx with hx | rfl
    · exact h.ready x hx
    · refine ⟨by rw [hbase, hnext, hd.base], ?_⟩
      rw [hnext, hend, hrecords, ← hd.base]
      exact (hd.numbered.some hd.hasRecords).2
  · rw [hpieces]
    exact h.accepted
  · have := h.queue
    simpa [Pipeline.queue, Pipeline.finalized, hfinalizing, hseq] using this
  · intro x hx
    have := h.publishing x hx
    simp [Pipeline.finalized, List.head?_append, this]
  · have := h.started
    simp only [inUse, Pipeline.finalized, hfinalizing, toList_some, List.length_singleton,
      toList_none, List.length_nil, List.length_append] at this ⊢
    omega
  · intro x hx
    rcases mem_concat.1 hx with hx | rfl
    · exact h.retired x hx
    · simp [hclosed, haborted]

/-- The first segment in ready order begins at the committed head and has the next number. -/
theorem head {rest : List ReadySegment} (hready : p.ready = r :: rest) :
    r.expectedNextLSN = p.committed.head.nextLSN ∧ r.seq = p.committedSeq := by
  constructor
  · have := h.laidOut
    simp only [pieces, cutPieces, hready, List.map_cons, List.cons_append, Spans.cons_iff] at this
    exact UInt64.toNat_inj.1 this.1
  · have hq := h.queue
    have hlen := h.length_queue
    simp only [Pipeline.queue, hready, List.map_cons, List.cons_append] at hq
    cases hn : p.inflightSegments with
    | zero => simp [hready, hn] at hlen
    | succ n =>
      rw [hn, List.range'_succ] at hq
      exact (List.cons.inj hq).1

theorem call {r : ReadySegment} (hpublishing : p.publishing = some r) (hnone : p.outstanding = none) :
    Running (p.calling r) := by
  obtain ⟨rest, hready⟩ := List.head?_eq_some_iff.1 (h.publishing r hpublishing)
  obtain ⟨hbase, hseq⟩ := h.head hready
  have hok := h.ready r (by simp [hready])
  refine { h with seqs := ?_, calls := ?_ }
  · have := h.seqs
    simp only [hnone, toList_none, List.length_nil, Nat.add_zero] at this
    simp [Pipeline.calling, this, hseq, List.range_succ]
  · intro c hc
    rcases mem_concat.1 hc with hc | rfl
    · exact h.calls c hc
    · exact ⟨hok.base.trans hbase, hnone⟩

theorem published {next : Snapshot} (hpublishing : p.publishing = some r)
    (hout : p.outstanding = some r.seq) (hnext : next.head.nextLSN = r.segment.nextLSN) :
    Running (p.publishedSegment r next) := by
  obtain ⟨rest, hready⟩ := List.head?_eq_some_iff.1 (h.publishing r hpublishing)
  have hok := h.ready r (by simp [hready])
  have hp : p.publishedSegment r next = { p with
      ready := rest
      inflightSegments := p.inflightSegments - 1
      committed := next
      publishing := none
      committedSeq := p.committedSeq + 1
      outstanding := none
      published := p.published ++ r.records } := by
    simp [Pipeline.publishedSegment, hready]
  have hlen := h.length_queue
  simp only [hready, List.length_cons] at hlen
  have hpieces : p.pieces = r.piece :: (p.publishedSegment r next).pieces := by
    simp [pieces, cutPieces, hp, hready]
  rw [hp] at hpieces ⊢
  refine { h with
    laidOut := ?_, ready := fun x hx => h.ready x (by simp [hready, hx]), accepted := ?_, queue := ?_, nextCutSeq := ?_,
    publishing := fun _ hr => absurd hr.symm (some_ne_none _), seqs := ?_ }
  · have hlaid := h.laidOut
    rw [hpieces] at hlaid
    obtain ⟨hbase, m, htiles, hrest⟩ := Spans.cons_iff.1 hlaid
    have hm : m = next.head.nextLSN.toNat := by
      rw [hnext]
      exact htiles.end_unique (hbase ▸ hok.tiles)
    rw [← hm]
    exact hrest
  · have := h.accepted
    rw [hpieces] at this
    simpa [ReadySegment.piece] using this
  · have hq := h.queue
    obtain ⟨n, hn⟩ := Nat.exists_eq_add_of_lt (show 0 < p.inflightSegments by omega)
    rw [hn, Nat.zero_add, List.range'_succ] at hq
    simp only [Pipeline.queue, hready, List.map_cons, List.cons_append] at hq
    simpa [Pipeline.queue, hn] using (List.cons.inj hq).2
  · have := h.nextCutSeq
    simp only
    omega
  · have := h.seqs
    simpa [hout] using this

end Running

/-- A terminal writer has nothing left to keep in order. -/
theorem Inv.terminate (h : Inv p) : Inv (p.terminate g) where
  active := fun _ ha => absurd ha.symm (some_ne_none _)
  idle := fun _ => rfl
  discarding := h.discarding
  transition := fun _ => .inl rfl
  running := fun hrun => Bool.noConfusion hrun
  drained := fun hclosed => { h.drained hclosed with active := rfl, detached := rfl, ready := rfl }

/-- A closed or drained writer has nothing to act on. -/
theorem Drained.move (h : Drained p) (hmove : Move g p p') (hg : g = .foreground → p.closed = true) : Drained p' := by
  cases hmove with
  | «begin» _ _ hactive | detach _ hactive | accept _ hactive | refuse _ hactive | take _ hactive => simp [h.active] at hactive
  | finish | close | lockSession | unlockSession => exact { h with }
  | start _ hclosed => simp [hg rfl] at hclosed
  | discard hdiscarding => simp [h.discarding] at hdiscarding
  | pop hdetached => simp [h.detached] at hdetached
  | finalized hfinalizing => simp [h.finalizing] at hfinalizing
  | look hready => simp [h.ready] at hready
  | call hpublishing | published _ hpublishing => simp [h.publishing] at hpublishing
  | retained _ hnext => exact { h with next := hnext.trans h.next }
  | terminate => exact { h with active := rfl, detached := rfl, ready := rfl }

theorem Inv.not_aborted (h : Inv p) (hactive : p.active = some a) : p.aborted = false := by
  cases haborted : p.aborted with
  | false => rfl
  | true => simp [h.idle haborted] at hactive

theorem Move.running (hmove : Move g p p') (h : Inv p) (haborted : p'.aborted = false) : Running p' := by
  cases hmove with
  | terminate => cases haborted
  | «begin» | finish | close | lockSession | unlockSession => exact { h.running haborted with }
  | detach _ hactive hne hseq hbase hwriter hfresh =>
    exact (h.running haborted).detach hactive (h.active _ hactive) hne hseq hbase hwriter hfresh
  | start _ _ _ hactive hsw => exact (h.running haborted).start hactive hsw
  | accept _ hactive hroom htime happ hbase _ => exact (h.running haborted).accept hactive hroom htime happ hbase
  | refuse _ hactive hsame => exact (h.running haborted).refuse hactive hsame
  | take _ hactive hempty hdiscarding =>
    exact (h.running haborted).take hactive ((h.active _ hactive).records_eq_zero.1 hempty) hdiscarding
  | discard hdiscarding hclosed habort => exact (h.running haborted).discard hdiscarding hclosed habort
  | pop hdetached hfinalizing => exact (h.running haborted).pop hdetached hfinalizing
  | finalized hfinalizing hseq hnext hbase hend hrecords hclosed habort =>
    exact (h.running haborted).finalized hfinalizing hseq hnext hbase hend hrecords hclosed habort
  | look hready _ => exact { h.running haborted with publishing := fun _ hr => Option.some.inj hr ▸ hready }
  | call hpublishing hnone => exact (h.running haborted).call hpublishing hnone
  | published _ hpublishing hout hnext => exact (h.running haborted).published hpublishing hout hnext
  | retained _ hnext =>
    have hrun := h.running haborted
    exact { hrun with laidOut := show LaidOut (Snapshot.head _).nextLSN.toNat _ p.pieces from hnext ▸ hrun.laidOut }

theorem Move.drained (hmove : Move g p p') (h : Inv p) (hclosed : p'.closed = true) : Drained p' := by
  by_cases hold : p.closed = true
  · exact (h.drained hold).move hmove fun _ => hold
  · cases hmove with
    | close haborted hactive hdiscarding hinflight =>
      exact { (h.running haborted).drained hactive hdiscarding hinflight with }
    | _ => exact absurd hclosed hold

theorem Move.inv (hmove : Move g p p') (h : Inv p) : Inv p' := by
  have hrunning := hmove.running h
  have hdrained := hmove.drained h
  cases hmove with
  | terminate => exact h.terminate
  | «begin» _ _ hactive hne =>
    exact { h with transition := fun _ => .inr ⟨_, hactive, hne⟩, running := hrunning, drained := hdrained }
  | finish => exact { h with transition := fun hsome => Bool.noConfusion hsome, running := hrunning, drained := hdrained }
  | detach _ hactive _ _ _ _ hfresh =>
    refine { h with active := fun a ha => ?_, idle := fun haborted => ?_, transition := fun hsome => Bool.noConfusion hsome,
                    running := hrunning, drained := hdrained }
    · obtain ⟨sw, hsw, rfl⟩ := hfresh a ha
      exact hsw.ok _
    · exact absurd haborted (by simp [Pipeline.detach, h.not_aborted hactive])
  | start htransition _ haborted _ hsw =>
    refine { h with active := fun a ha => ?_, idle := fun hyes => ?_, transition := fun hsome => ?_,
                    running := hrunning, drained := hdrained }
    · cases ha
      exact hsw.ok _
    · simp [haborted] at hyes
    · simp [htransition] at hsome
  | @accept _ record a _ htransition hactive _ _ happ hbase hcount =>
    have hok := h.active _ hactive
    refine { h with active := fun a ha => ?_, idle := fun hyes => ?_, transition := fun hsome => ?_,
                    running := hrunning, drained := hdrained }
    · cases ha
      refine ⟨happ.numbered hok.numbered, happ.closed.trans hok.closed, ?_, fun _ => ?_⟩
      · rw [hcount, happ.recordCount, hok.records]
      · rw [happ.baseLSN, hbase]
        cases hhas : a.writer.hasRecords with
        | true => exact hok.base hhas
        | false =>
          have hrun := h.running (h.not_aborted hactive)
          exact (hrun.base_of_empty hactive (hok.numbered.none hhas)).symm
    · simp [Pipeline.accept, h.not_aborted hactive] at hyes
    · simp [Pipeline.accept, htransition] at hsome
  | refuse htransition hactive hsame =>
    have hok := h.active _ hactive
    refine { h with active := fun a ha => ?_, idle := fun hyes => ?_, transition := fun hsome => ?_,
                    running := hrunning, drained := hdrained }
    · cases ha
      exact ⟨hsame.numbered hok.numbered, hsame.closed.trans hok.closed, by rw [hok.records, hsame.recordCount],
        fun hyes => by rw [hsame.baseLSN, hok.base (hsame.hasRecords ▸ hyes)]⟩
    · simp [h.not_aborted hactive] at hyes
    · simp [htransition] at hsome
  | take htransition hactive _ _ =>
    refine { h with active := fun a ha => absurd ha.symm (some_ne_none _), idle := fun _ => rfl,
                    discarding := fun a ha => ?_, transition := fun hsome => ?_, running := hrunning, drained := hdrained }
    · cases ha
      exact (h.active _ hactive).closed
    · simp [htransition] at hsome
  | discard => exact { h with discarding := fun _ ha => absurd ha.symm (some_ne_none _), running := hrunning, drained := hdrained }
  | _ => exact { h with running := hrunning, drained := hdrained }

end ObjLog.Writer
