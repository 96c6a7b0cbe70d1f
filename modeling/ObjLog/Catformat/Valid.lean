import ObjLog.Catformat.Validate
import Mathlib.Data.List.Chain
import Mathlib.Algebra.BigOperators.Group.List.Basic
import Mathlib.Tactic.MkIffOfInductiveProp
/-!
# What validation accepts

One predicate for each validator, with named fields, and the equivalence
between the two. A loop that compares neighbours becomes `List.IsChain`; a
running count that must not overflow becomes an equation in `Nat`.
-/

namespace ObjLog.Catformat

open Lib
open UInt64 (le_iff_toNat_le not_lt)
open Option (toList_none toList_some)
open List (cons_append mem_cons nil_append)

/-! ## Entries -/

@[mk_iff] structure LeafEntryOk (e : LeafEntry) : Prop where
  range : e.baseLSN ≤ e.lastLSN
  maxLSN : e.lastLSN ≤ maxRecordLSN
  span : e.lastLSN - e.baseLSN + 1 ≤ maxUint32
  records : e.recordCount ≠ 0
  count : e.recordCount.toUInt64 = e.lastLSN - e.baseLSN + 1
  timestamps : e.minTimestampMS ≤ e.maxTimestampMS
  blocks : e.blockCount ≠ 0
  size : e.sizeBytes ≠ 0
  blockIndex : e.blockIndexLength ≠ 0
  codec : e.codec.validate = .ok ()
  hashAlgo : e.hashAlgo.validate = .ok ()
  epoch : e.writerEpoch ≠ 0
  uuid : isZero16 e.segmentUUID = false
  tag : isZero16 e.writerTag = false

theorem validateLeafEntry_ok (e : LeafEntry) : validateLeafEntry e = .ok () ↔ LeafEntryOk e := by
  simp only [validateLeafEntry, leafEntryOk_iff, checks_ok, not_or, not_not, Bool.not_eq_true, gt_iff_lt,
    not_lt, Int64.not_lt, ne_eq, and_assoc]

@[mk_iff] structure IndexEntryOk (e : IndexEntry) : Prop where
  level : e.level.toNat ≤ maxIndexLevel
  range : e.seqLo ≤ e.seqHi
  maxLSN : e.seqHi ≤ maxRecordLSN
  timestamps : e.minTimestampMS ≤ e.maxTimestampMS
  entries : e.entryCount ≠ 0
  limit : e.entryCount.toNat ≤ if e.level = 0 then maxLeafEntries else maxIndexEntries
  generation : e.generation ≠ 0
  pageID : isZero16 e.pageID = false
  count : e.entryCount.toUInt64 ≤ e.segmentCount
  leafCount : e.level = 0 → e.segmentCount = e.entryCount.toUInt64
  span : e.segmentCount ≤ e.seqHi - e.seqLo + 1

theorem validateIndexEntry_ok (e : IndexEntry) : validateIndexEntry e = .ok () ↔ IndexEntryOk e := by
  simp only [validateIndexEntry, indexEntryOk_iff, checks_ok, not_or, not_and, not_not, Bool.not_eq_true, gt_iff_lt,
    not_lt, Int64.not_lt, Nat.not_lt, ne_eq, and_assoc]

/-! ## Leaf pages -/

/-- `b` may follow `a` in a leaf. -/
@[mk_iff] structure LeafNext (a b : LeafEntry) : Prop where
  room : a.lastLSN ≠ maxRecordLSN
  base : b.baseLSN = a.lastLSN + 1
  timestamps : a.maxTimestampMS ≤ b.minTimestampMS
  epochs : a.writerEpoch ≤ b.writerEpoch

theorem validateLeafEntries_ok (es : List LeafEntry) : ∀ (i : Nat) (previous : Option LeafEntry),
    validateLeafEntries i previous es = .ok () ↔
      (∀ e ∈ es, LeafEntryOk e) ∧ (previous.toList ++ es).IsChain LeafNext := by
  induction es with
  | nil => intro i previous; cases previous <;> simp [validateLeafEntries]
  | cons e es ih =>
    intro i previous
    cases previous with
    | none =>
      simp only [validateLeafEntries, checks_ok, validateLeafEntry_ok, ih, toList_some, toList_none,
        nil_append, cons_append, mem_cons, forall_eq_or_imp, and_assoc]
    | some p =>
      simp only [validateLeafEntries, checks_ok, validateLeafEntry_ok, ih, toList_some, cons_append,
        nil_append, mem_cons, forall_eq_or_imp, List.isChain_cons_cons, leafNext_iff, not_or, not_not,
        not_lt, Int64.not_lt, ne_eq]
      tauto

@[mk_iff] structure LeafPageOk (p : LeafPage) : Prop where
  common : validateCommonPageHeader p.header = .ok ()
  level : p.header.level = 0
  entrySize : p.header.entrySize.toNat = leafEntrySize
  nonempty : p.entries ≠ []
  limit : p.entries.length ≤ maxLeafEntries
  entryCount : p.header.entryCount = UInt32.ofNat p.entries.length
  segmentCount : p.header.segmentCount = UInt64.ofNat p.entries.length
  entries : ∀ e ∈ p.entries, LeafEntryOk e
  chain : p.entries.IsChain LeafNext
  seqLo : p.header.seqLo = (p.entries.headD .zero).baseLSN
  seqHi : p.header.seqHi = (p.entries.getLastD .zero).lastLSN
  minTS : p.header.minTimestampMS = (p.entries.headD .zero).minTimestampMS
  maxTS : p.header.maxTimestampMS = (p.entries.getLastD .zero).maxTimestampMS
  epoch : (p.entries.getLastD .zero).writerEpoch ≤ p.header.writerEpoch

theorem validateLeafPage_ok (p : LeafPage) : validateLeafPage p = .ok () ↔ LeafPageOk p := by
  simp only [validateLeafPage, leafPageOk_iff, checks_ok, not_or, not_not, validateLeafEntries_ok, toList_none,
    nil_append, gt_iff_lt, not_lt, Nat.not_lt, List.length_eq_zero_iff, ne_eq, and_assoc]

/-! ## Index pages -/

/-- `b` may follow `a` in an index page or among the head's references. -/
@[mk_iff] structure IndexNext (a b : IndexEntry) : Prop where
  room : a.seqHi ≠ maxRecordLSN
  base : b.seqLo = a.seqHi + 1
  timestamps : a.maxTimestampMS ≤ b.minTimestampMS

/-- The leaf entries below a list of references, as their counts say. -/
def countSegments (es : List IndexEntry) : Nat := (es.map (·.segmentCount.toNat)).sum

@[simp] theorem countSegments_nil : countSegments [] = 0 := rfl

@[simp] theorem countSegments_cons (e : IndexEntry) (es : List IndexEntry) :
    countSegments (e :: es) = e.segmentCount.toNat + countSegments es := by
  simp [countSegments]

/-- A guarded 64-bit addition is addition in `Nat`. -/
theorem toNat_add_guarded {a b : UInt64} (h : b ≤ maxUint64 - a) : (a + b).toNat = a.toNat + b.toNat := by
  have ha := a.toNat_lt
  rw [le_iff_toNat_le, UInt64.toNat_sub_of_le _ _ (by rw [le_iff_toNat_le]; simp [maxUint64]; omega)] at h
  rw [UInt64.toNat_add]
  simp only [maxUint64, UInt64.reduceToNat] at h
  omega

theorem le_sub_iff_guarded {a b : UInt64} : b ≤ maxUint64 - a ↔ a.toNat + b.toNat < 2 ^ 64 := by
  have ha := a.toNat_lt
  rw [le_iff_toNat_le, UInt64.toNat_sub_of_le _ _ (by rw [le_iff_toNat_le]; simp [maxUint64]; omega)]
  simp only [maxUint64, UInt64.reduceToNat]
  omega

/-- The guard is exactly what makes the running count exact. -/
theorem count_guarded {c k n : UInt64} {rest : Nat} :
    (k ≤ maxUint64 - c ∧ n.toNat = (c + k).toNat + rest) ↔ n.toNat = c.toNat + (k.toNat + rest) := by
  have hn := n.toNat_lt
  constructor
  · rintro ⟨hg, h⟩
    rw [h, toNat_add_guarded hg, Nat.add_assoc]
  · intro h
    have hg : k ≤ maxUint64 - c := le_sub_iff_guarded.2 (by omega)
    exact ⟨hg, by rw [toNat_add_guarded hg]; omega⟩

@[mk_iff] structure ChildOk (level : UInt8) (generation : UInt64) (e : IndexEntry) : Prop where
  entry : IndexEntryOk e
  level : e.level + 1 = level
  generation : e.generation ≤ generation

theorem validateIndexEntries_ok (header : PageHeader) (es : List IndexEntry) :
    ∀ (i : Nat) (previous : Option IndexEntry) (c n : UInt64), validateIndexEntries header i previous c es = .ok n ↔
      (∀ e ∈ es, ChildOk header.level header.generation e) ∧ (previous.toList ++ es).IsChain IndexNext ∧
      n.toNat = c.toNat + countSegments es := by
  induction es with
  | nil =>
    intro i previous c n
    have hc : c = n ↔ n.toNat = c.toNat := by rw [eq_comm, UInt64.toNat_inj]
    cases previous <;> simp [validateIndexEntries, hc]
  | cons e es ih =>
    intro i previous c n
    rw [countSegments_cons, ← count_guarded]
    cases previous with
    | none =>
      simp only [validateIndexEntries, checks_ok, validateIndexEntry_ok, ih, toList_some, toList_none,
        nil_append, cons_append, mem_cons, forall_eq_or_imp, childOk_iff, not_lt, not_not,
        gt_iff_lt, ne_eq]
      constructor
      · rintro ⟨h1, h2, h3, h4, h5, h6, h7⟩
        exact ⟨⟨⟨h1, h2, h3⟩, h5⟩, h6, h4, h7⟩
      · rintro ⟨⟨⟨h1, h2, h3⟩, h5⟩, h6, h4, h7⟩
        exact ⟨h1, h2, h3, h4, h5, h6, h7⟩
    | some p =>
      simp only [validateIndexEntries, checks_ok, validateIndexEntry_ok, ih, toList_some, cons_append,
        nil_append, mem_cons, forall_eq_or_imp, List.isChain_cons_cons, childOk_iff, indexNext_iff, not_or,
        not_lt, Int64.not_lt, not_not, gt_iff_lt, ne_eq]
      constructor
      · rintro ⟨h1, h2, h3, h4, ⟨hr, hb⟩, ht, h5, h6, h7⟩
        exact ⟨⟨⟨h1, h2, h3⟩, h5⟩, ⟨⟨hr, hb, ht⟩, h6⟩, h4, h7⟩
      · rintro ⟨⟨⟨h1, h2, h3⟩, h5⟩, ⟨⟨hr, hb, ht⟩, h6⟩, h4, h7⟩
        exact ⟨h1, h2, h3, h4, ⟨hr, hb⟩, ht, h5, h6, h7⟩

@[mk_iff] structure IndexPageOk (p : IndexPage) : Prop where
  common : validateCommonPageHeader p.header = .ok ()
  level_pos : p.header.level ≠ 0
  level : p.header.level.toNat ≤ maxIndexLevel
  entrySize : p.header.entrySize.toNat = indexEntrySize
  nonempty : p.entries ≠ []
  limit : p.entries.length ≤ maxIndexEntries
  entryCount : p.header.entryCount = UInt32.ofNat p.entries.length
  entries : ∀ e ∈ p.entries, ChildOk p.header.level p.header.generation e
  chain : p.entries.IsChain IndexNext
  segmentCount : p.header.segmentCount.toNat = countSegments p.entries
  seqLo : p.header.seqLo = (p.entries.headD .zero).seqLo
  seqHi : p.header.seqHi = (p.entries.getLastD .zero).seqHi
  minTS : p.header.minTimestampMS = (p.entries.headD .zero).minTimestampMS
  maxTS : p.header.maxTimestampMS = (p.entries.getLastD .zero).maxTimestampMS

theorem validateIndexPage_ok (p : IndexPage) : validateIndexPage p = .ok () ↔ IndexPageOk p := by
  simp only [validateIndexPage, checks_ok, not_or, not_not, validateIndexEntries_ok, toList_none,
    nil_append, gt_iff_lt, Nat.not_lt, List.length_eq_zero_iff, ne_eq, UInt64.toNat_zero, Nat.zero_add]
  constructor
  · rintro ⟨h1, ⟨h2, h3⟩, h4, ⟨h5, h6⟩, h7, n, ⟨h8, h9, h10⟩, h11, h12, h13, h14, h15⟩
    exact ⟨h1, h2, h3, h4, h5, h6, h7, h8, h9, by rw [h11, h10], h12, h13, h14, h15⟩
  · rintro ⟨h1, h2, h3, h4, h5, h6, h7, h8, h9, h10, h11, h12, h13, h14⟩
    exact ⟨h1, ⟨h2, h3⟩, h4, ⟨h5, h6⟩, h7, _, ⟨h8, h9, h10⟩, rfl, h11, h12, h13, h14⟩

/-! ## The head -/

theorem validateSectionEntries_ok (header : HeadHeader) (s : OpenIndexSection) (es : List IndexEntry) :
    ∀ j : Nat, validateSectionEntries header s j es = .ok () ↔ ∀ e ∈ es, ChildOk s.level header.generation e := by
  induction es with
  | nil => intro j; simp [validateSectionEntries]
  | cons e es ih =>
    intro j
    simp only [validateSectionEntries, checks_ok, validateIndexEntry_ok, ih, mem_cons, forall_eq_or_imp,
      childOk_iff, not_not, gt_iff_lt, not_lt, ne_eq, and_assoc]

@[mk_iff] structure SectionOk (header : HeadHeader) (level : Nat) (s : OpenIndexSection) : Prop where
  level : s.level = UInt8.ofNat level
  limit : s.entries.length < header.indexLimit.toNat
  entries : ∀ e ∈ s.entries, ChildOk s.level header.generation e

theorem validateSections_ok (header : HeadHeader) (ss : List OpenIndexSection) :
    ∀ i : Nat, validateSections header i ss = .ok () ↔ ∀ j s, ss[j]? = some s → SectionOk header (i + j + 1) s := by
  induction ss with
  | nil => intro i; simp [validateSections]
  | cons s ss ih =>
    intro i
    simp only [validateSections, checks_ok, validateSectionEntries_ok, ih, not_not, ne_eq, ge_iff_le, Nat.not_le]
    rw [← and_assoc, ← and_assoc, and_assoc (a := s.level = _), ← sectionOk_iff]
    constructor
    · rintro ⟨h1, h2⟩ j t ht
      cases j with
      | zero => simp only [List.getElem?_cons_zero, Option.some.injEq] at ht; subst ht; exact h1
      | succ j => rw [show i + (j + 1) + 1 = i + 1 + j + 1 by omega]; exact h2 j t (by simpa using ht)
    · intro h
      refine ⟨h 0 s rfl, fun j t ht => ?_⟩
      have := h (j + 1) t (by simpa using ht)
      rwa [show i + (j + 1) + 1 = i + 1 + j + 1 by omega] at this

theorem validateActive_ok (header : HeadHeader) (es : List LeafEntry) :
    ∀ (i : Nat) (previous : Option LeafEntry), validateActive header i previous es = .ok () ↔
      (∀ e ∈ es, LeafEntryOk e ∧ e.writerEpoch ≤ header.writerEpoch) ∧
      (previous.toList ++ es).IsChain (fun a b => a.writerEpoch ≤ b.writerEpoch) := by
  induction es with
  | nil => intro i previous; cases previous <;> simp [validateActive]
  | cons e es ih =>
    intro i previous
    cases previous with
    | none =>
      simp only [validateActive, checks_ok, validateLeafEntry_ok, ih, toList_some, toList_none,
        nil_append, cons_append, mem_cons, forall_eq_or_imp, gt_iff_lt, not_lt, and_assoc]
    | some p =>
      simp only [validateActive, checks_ok, validateLeafEntry_ok, ih, toList_some, nil_append,
        cons_append, mem_cons, forall_eq_or_imp, gt_iff_lt, not_lt, List.isChain_cons_cons]
      tauto

@[mk_iff] structure RootNext (a b : RootRange) : Prop where
  room : a.seqHi ≠ maxRecordLSN
  base : b.seqLo = a.seqHi + 1
  timestamps : a.maxTS ≤ b.minTS

def rootSegments (rs : List RootRange) : Nat := (rs.map (·.segments.toNat)).sum

@[simp] theorem rootSegments_cons (r : RootRange) (rs : List RootRange) :
    rootSegments (r :: rs) = r.segments.toNat + rootSegments rs := by
  simp [rootSegments]

theorem validateRoots_ok (oldestLSN : UInt64) (rs : List RootRange) :
    ∀ (i : Nat) (previous : Option RootRange) (c n : UInt64), validateRoots oldestLSN i previous c rs = .ok n ↔
      (previous = none → ∀ r ∈ rs.head?, r.seqLo = oldestLSN) ∧ (previous.toList ++ rs).IsChain RootNext ∧
      n.toNat = c.toNat + rootSegments rs := by
  induction rs with
  | nil =>
    intro i previous c n
    have hc : c = n ↔ n.toNat = c.toNat := by rw [eq_comm, UInt64.toNat_inj]
    cases previous <;> simp [validateRoots, hc, rootSegments]
  | cons r rs ih =>
    intro i previous c n
    rw [rootSegments_cons, ← count_guarded]
    cases previous with
    | none =>
      simp only [validateRoots, checks_ok, ih, toList_some, toList_none, nil_append,
        cons_append, not_lt, not_not, ne_eq, forall_const, List.head?_cons, Option.mem_def,
        Option.some.injEq, forall_eq', reduceCtorEq, false_implies, true_and]
      constructor
      · rintro ⟨h1, h2, h3, h4⟩
        exact ⟨h2, h3, h1, h4⟩
      · rintro ⟨h2, h3, h1, h4⟩
        exact ⟨h1, h2, h3, h4⟩
    | some p =>
      simp only [validateRoots, checks_ok, ih, toList_some, nil_append, cons_append,
        List.isChain_cons_cons, not_lt, Int64.not_lt, not_not, not_or, ne_eq, rootNext_iff, reduceCtorEq,
        false_implies, true_and]
      constructor
      · rintro ⟨h1, ⟨hr, hb⟩, ht, h3, h4⟩
        exact ⟨⟨⟨hr, hb, ht⟩, h3⟩, h1, h4⟩
      · rintro ⟨⟨⟨hr, hb, ht⟩, h3⟩, h1, h4⟩
        exact ⟨h1, ⟨hr, hb⟩, ht, h3, h4⟩

@[mk_iff] structure HeaderOk (head : Head) : Prop where
  flags : head.header.flags &&& ~~~flagHasLastSegment = 0
  hashAlgo : head.header.hashAlgo.validate = .ok ()
  layout : head.header.segmentLayoutVersion = segmentLayoutV1
  leafLimit_pos : head.header.leafLimit ≠ 0
  leafLimit : head.header.leafLimit.toNat ≤ maxLeafEntries
  indexLimit_two : 2 ≤ head.header.indexLimit
  indexLimit : head.header.indexLimit.toNat ≤ maxIndexEntries
  active : head.active.length < head.header.leafLimit.toNat
  activeCount : head.header.activeCount = UInt32.ofNat head.active.length
  levels : head.sections.length ≤ maxOpenIndexLevel
  levelCount : head.header.levelCount = UInt32.ofNat head.sections.length
  next : head.header.nextLSN ≤ reservedLSN
  oldest : head.header.oldestLSN ≤ head.header.nextLSN
  retention : head.header.appliedRetentionLSN ≤ head.header.nextLSN
  retentionVersion : head.header.appliedRetentionVersion = 0 → head.header.appliedRetentionLSN = 0
  writer : decide (head.header.writerEpoch = 0) = isZero16 head.header.writerID
  reachable : head.header.reachableSegmentCount ≤ head.header.segmentCount
  streamKey : isZero32 head.header.streamKey = false
  dataRootKey : isZero32 head.header.dataRootKey = false

theorem validateHeadHeader_ok (head : Head) : validateHeadHeader head = .ok () ↔ HeaderOk head := by
  simp only [validateHeadHeader, headerOk_iff, checks_ok, not_or, not_and, not_not, Bool.not_eq_true, gt_iff_lt,
    ge_iff_le, not_lt, UInt32.not_lt, Nat.not_lt, Nat.not_le, ne_eq, and_assoc]

/-- A head that never had a segment. -/
@[mk_iff] structure EmptyOk (head : Head) : Prop where
  lastSegment : head.lastSegment = .zero
  oldest : head.header.oldestLSN = head.header.nextLSN
  segmentCount : head.header.segmentCount = 0
  reachable : head.header.reachableSegmentCount = 0
  active : head.active = []
  roots : head.rootRanges = []

/-- The segment the head ends with. -/
@[mk_iff] structure LastOk (head : Head) : Prop where
  entry : LeafEntryOk head.lastSegment
  epoch : head.lastSegment.writerEpoch ≤ head.header.writerEpoch
  segmentCount : head.header.segmentCount ≠ 0
  room : head.lastSegment.lastLSN ≠ maxRecordLSN
  next : head.lastSegment.lastLSN + 1 = head.header.nextLSN

/-- A head whose whole history was retained away. -/
@[mk_iff] structure RetainedOk (head : Head) : Prop where
  oldest : head.header.oldestLSN = head.header.nextLSN
  reachable : head.header.reachableSegmentCount = 0
  active : head.active = []

/-- A head with reachable history. -/
structure RootsOk (head : Head) : Prop where
  last : (head.rootRanges.getLastD .zero).seqHi = head.lastSegment.lastLSN
  active : head.active ≠ [] → head.active.getLastD .zero = head.lastSegment
  first : ∀ r ∈ head.rootRanges.head?, r.seqLo = head.header.oldestLSN
  chain : head.rootRanges.IsChain RootNext
  reachable : head.header.reachableSegmentCount.toNat = rootSegments head.rootRanges

def HistoryOk (head : Head) : Prop :=
  (head.hasLastSegment = false ∧ EmptyOk head) ∨
  (head.hasLastSegment = true ∧ LastOk head ∧
    (head.rootRanges = [] ∧ RetainedOk head ∨ head.rootRanges ≠ [] ∧ RootsOk head))

theorem validateHistory_ok (head : Head) : validateHistory head = .ok () ↔ HistoryOk head := by
  unfold validateHistory HistoryOk
  by_cases hlast : head.hasLastSegment = true
  · simp only [hlast, Bool.not_true, Bool.false_eq_true, if_false, checks_ok, validateLeafEntry_ok, Bool.true_eq_false,
    false_and, false_or, true_and]
    by_cases hroots : head.rootRanges = []
    · simp only [lastOk_iff, retainedOk_iff, hroots, List.length_nil, if_true, failIf_ok, not_or, not_not, ne_eq,
        not_true, false_and, or_false, true_and, gt_iff_lt, not_lt, List.length_eq_zero_iff, and_assoc]
    · have hlen : ¬head.rootRanges.length = 0 := by simpa using hroots
      simp only [hlen, hroots, if_false, checks_ok, not_or, not_not, not_and, ne_eq, not_false_iff, false_and,
        false_or, true_and, gt_iff_lt, not_lt, List.length_pos_iff, validateRoots_ok, toList_none,
        nil_append, forall_const, UInt64.toNat_zero, Nat.zero_add]
      constructor
      · rintro ⟨h1, h2, h3, ⟨h4, h5⟩, h6, h7, n, ⟨h8, h9, h10⟩, -, rfl⟩
        exact ⟨⟨h1, h2, h3, h4, h5⟩, h6, h7, h8, h9, h10⟩
      · rintro ⟨⟨h1, h2, h3, h4, h5⟩, h6, h7, h8, h9, h10⟩
        exact ⟨h1, h2, h3, ⟨h4, h5⟩, h6, h7, _, ⟨h8, h9, h10⟩, ⟨by rw [h6]; exact h4, by rw [h6]; exact h5⟩, rfl⟩
  · have hlast' : head.hasLastSegment = false := by simpa using hlast
    simp only [emptyOk_iff, hlast', Bool.not_false, if_true, checks_ok, not_or, not_not, ne_eq, true_and,
      Bool.false_eq_true, false_and, or_false, List.length_eq_zero_iff]

@[mk_iff] structure HeadOk (head : Head) : Prop where
  header : HeaderOk head
  sections : ∀ j s, head.sections[j]? = some s → SectionOk head.header (j + 1) s
  active : ∀ e ∈ head.active, LeafEntryOk e ∧ e.writerEpoch ≤ head.header.writerEpoch
  activeEpochs : head.active.IsChain (fun a b => a.writerEpoch ≤ b.writerEpoch)
  history : HistoryOk head

theorem validateHead_ok (head : Head) : validateHead head = .ok () ↔ HeadOk head := by
  simp only [validateHead, headOk_iff, checks_ok, validateHeadHeader_ok, validateSections_ok, validateActive_ok,
    validateHistory_ok, toList_none, nil_append, Nat.zero_add, and_assoc]

end ObjLog.Catformat
