import ObjLog.Catengine.Trim
/-!
# Every reachable head

`Reachable` is any sequence of successful operations from a new head, where the
pages of each mutation are stored before the next operation. Pages are stored
under their own keys and never replaced by other bodies (`Grows`).

The history of a reachable head is an append-only list with deletion of a
prefix, and lookups are searches of that list.
-/

namespace ObjLog.Catengine

open Lib Catformat Pmeta Blobstore

variable {ref : IndexEntry} {e : UInt64}

section
variable [Hashes]

inductive Reachable (config : Config) : Pages → Head → Prop
  | new {pages : Pages} {n : UInt64} {head : Head} {body : Bytes} :
      newHead config n = .ok (head, body) → Reachable config pages head
  | takeover {pages pages' : Pages} {head : Head} {writerID : Arr 16} {m : Mutation} :
      Reachable config pages head → takeover config head writerID = .ok m →
      Grows pages pages' → Stored pages' m.pages → Reachable config pages' m.head
  | append {pages pages' : Pages} {head : Head} {segment : SegmentRef} {m : Mutation} :
      Reachable config pages head → append config head segment = .ok m →
      Grows pages pages' → Stored pages' m.pages → Reachable config pages' m.head
  | retention {pages pages' : Pages} {head : Head} {before version : UInt64} {m : Mutation} :
      Reachable config pages head → eval pages (applyRetention config head before version) = .ok m →
      Grows pages pages' → Stored pages' m.pages → Reachable config pages' m.head

theorem Reachable.inv {config : Config} {pages : Pages} {head : Head} (h : Reachable config pages head) :
    ∃ l, Inv config pages head l := by
  induction h with
  | new h => exact ⟨[], newHead_inv h⟩
  | takeover _ h hg _ ih =>
    obtain ⟨l, hi⟩ := ih
    exact ⟨l, takeover_inv hi h hg⟩
  | append _ h hg hs ih =>
    obtain ⟨l, hi⟩ := ih
    exact ⟨_, append_inv hi h hg hs⟩
  | retention _ h hg hs ih =>
    obtain ⟨l, hi⟩ := ih
    obtain ⟨k, hk, _⟩ := applyRetention_inv hi h hg hs
    exact ⟨k, hk⟩

/-! ## References below a head -/

/-- A reference met on the way down from a head, with the epoch bound its page is loaded under. -/
inductive RefBelow (config : Config) (pages : Pages) (head : Head) : IndexEntry → UInt64 → Prop
  | root {ref : IndexEntry} : ref ∈ sectionRefs head.sections → RefBelow config pages head ref head.header.writerEpoch
  | child {ref c : IndexEntry} {e : UInt64} {page : IndexPage} :
      RefBelow config pages head ref e → ref.level ≠ 0 → eval pages (loadIndex config ref e) = .ok page →
      c ∈ page.entries → RefBelow config pages head c page.header.writerEpoch

/-- The page of a reference loads. -/
def Loads (config : Config) (pages : Pages) (ref : IndexEntry) (e : UInt64) : Prop :=
  if ref.level = 0 then ∃ page, eval pages (loadLeaf config ref e) = .ok page
  else ∃ page, eval pages (loadIndex config ref e) = .ok page

theorem loads_of_leaves {config : Config} {pages : Pages} {depth : Nat}
    {l : List LeafEntry} (h : leaves config pages depth ref e = .ok l) : Loads config pages ref e := by
  unfold Loads
  obtain ⟨h0, page, hp, _⟩ | ⟨h0, _, page, _, _, hp, _⟩ := leaves_cases.1 h
  · rw [if_pos h0]
    exact ⟨page, hp⟩
  · rw [if_neg h0]
    exact ⟨page, hp⟩

theorem holds_mem {config : Config} {pages : Pages} {refs : List IndexEntry} {l : List LeafEntry}
    (h : Holds config pages e refs l) (hr : ref ∈ refs) :
    ∃ m, leaves config pages ref.level.toNat ref e = .ok m := by
  obtain ⟨ls, hls, _⟩ := h
  obtain ⟨m, _, hm⟩ := forall₂_mem_left hls hr
  exact ⟨m, hm⟩

/-- Everything below a head with the invariant loads. -/
theorem Inv.below {config : Config} {pages : Pages} {head : Head} {l : List LeafEntry} (h : Inv config pages head l)
    (hr : RefBelow config pages head ref e) :
    ∃ m, leaves config pages ref.level.toNat ref e = .ok m := by
  induction hr with
  | root hmem =>
    obtain ⟨a, ha, _⟩ := flat_iff_holds.1 h.contents
    exact holds_mem ha hmem
  | @child ref c e page _ h0 hp hc ih =>
    obtain ⟨m, hm⟩ := ih
    obtain ⟨hz, _⟩ | ⟨_, d, page', ls, hd, hp', hls, _⟩ := leaves_cases.1 hm
    · exact absurd hz h0
    · obtain rfl : page = page' := Except.ok.inj (hp.symm.trans hp')
      obtain ⟨x, _, hx⟩ := forall₂_mem_left hls hc
      have hlevel := (loadIndex_loaded hp).child_level hc
      obtain rfl : c.level.toNat = d := by omega
      exact ⟨x, hx⟩

end

/-! ## A small catalog

Limits of one leaf entry and two references, so that the second append seals an index page. -/

namespace Sample

@[reducible] def hashes : Hashes where
  sha256 _ := ⟨List.replicate 32 7, by simp⟩
  crc32c b := UInt32.ofNat b.length
  xxh64 b := UInt64.ofNat b.length

def id16 : Arr 16 := ⟨List.replicate 16 1, by simp⟩

def config : Config where
  catalogPrefix := "c"
  dataRoot := "d"
  streamID := ""
  partition := 0
  leafLimit := 1
  indexLimit := 2
  hashAlgo := .crc32c
  streamKey := ⟨List.replicate 32 7, by simp⟩
  dataRootKey := ⟨List.replicate 32 7, by simp⟩

/-- Three records from `base`, written in the first epoch. -/
def segment (base : UInt64) : SegmentRef :=
  letI := hashes
  config.segmentRef ⟨base, base + 2, 0, 0, 3, 1, 1, 0, 1, .none, .crc32c, 0, 0, 1, id16, id16⟩

def value {α : Type} (d : α) : Except Err α → α
  | .ok a => a
  | .error _ => d

def isOk {α : Type} : Except Err α → Bool
  | .ok _ => true
  | .error _ => false

theorem eq_ok {α : Type} {x : Except Err α} (d : α) (h : isOk x = true) : x = .ok (value d x) := by
  cases x with
  | ok a => rfl
  | error e => simp [isOk] at h

def pagesOf (objects : List PageObject) : Pages := fun key => (objects.find? (·.key = key)).map (·.body)

def noMutation : Mutation := ⟨emptyHead config 0, [], []⟩

def created : Head × Bytes := letI := hashes; value (emptyHead config 0, []) (newHead config 10)
def taken : Mutation := letI := hashes; value noMutation (takeover config created.1 id16)
def one : Mutation := letI := hashes; value noMutation (append config taken.head (segment 10))
def two : Mutation := letI := hashes; value noMutation (append config one.head (segment 13))
def store : Pages := pagesOf (one.pages ++ two.pages)
def cut : Mutation := letI := hashes; value noMutation (eval store (applyRetention config two.head 14 1))
def cutStore : Pages := pagesOf (one.pages ++ two.pages ++ cut.pages)

section
set_option maxRecDepth 20000

/-- Each operation of the sample succeeds and its pages have keys of their own. Evaluated once. -/
theorem evaluates : letI := hashes
    (isOk (newHead config 10) ∧ isOk (takeover config created.1 id16) ∧ isOk (append config taken.head (segment 10)) ∧
      isOk (append config one.head (segment 13)) ∧ isOk (eval store (applyRetention config two.head 14 1))) ∧
    (∀ o ∈ one.pages, pagesOf one.pages o.key = some o.body) ∧ (∀ o ∈ two.pages, store o.key = some o.body) ∧
    ∀ o ∈ cut.pages, cutStore o.key = some o.body := by
  decide +kernel

theorem created_ok : letI := hashes; newHead config 10 = .ok created := eq_ok _ evaluates.1.1

theorem taken_ok : letI := hashes; takeover config created.1 id16 = .ok taken := eq_ok _ evaluates.1.2.1

theorem one_ok : letI := hashes; append config taken.head (segment 10) = .ok one := eq_ok _ evaluates.1.2.2.1

theorem two_ok : letI := hashes; append config one.head (segment 13) = .ok two := eq_ok _ evaluates.1.2.2.2.1

theorem cut_ok : letI := hashes; eval store (applyRetention config two.head 14 1) = .ok cut :=
  eq_ok _ evaluates.1.2.2.2.2

theorem stored_one : Stored (pagesOf one.pages) one.pages := evaluates.2.1

theorem stored_two : Stored store two.pages := evaluates.2.2.1

theorem stored_cut : Stored cutStore cut.pages := evaluates.2.2.2

end

/-- Objects found before more are stored are found after. -/
theorem pagesOf_grows (xs ys : List PageObject) : Grows (pagesOf xs) (pagesOf (xs ++ ys)) := by
  intro key body h
  unfold pagesOf at h ⊢
  obtain ⟨o, ho, rfl⟩ := Option.map_eq_some_iff.1 h
  rw [List.find?_append, ho]
  rfl

theorem reachable_one : letI := hashes; Reachable config (pagesOf one.pages) one.head := by
  let _ := hashes
  have hnew : Reachable config (pagesOf []) created.1 := .new created_ok
  have htaken : Reachable config (pagesOf []) taken.head :=
    hnew.takeover taken_ok (fun _ _ h => h) (by rw [(takeover_ok taken_ok).2.1]; simp [Stored])
  exact htaken.append one_ok (pagesOf_grows [] one.pages) stored_one

/-- Two appended segments, sealed into one index page. -/
theorem reachable_two : letI := hashes; Reachable config store two.head :=
  letI := hashes
  reachable_one.append two_ok (pagesOf_grows _ _) stored_two

end Sample

/-- The catalog tree invariant. -/
theorem reachable_tree [Hashes] {config : Config} {pages : Pages} {head : Head} (h : Reachable config pages head) :
    validateHead head = .ok () ∧ (∀ ref e, RefBelow config pages head ref e → Loads config pages ref e ∧
      ∃ m, leaves config pages ref.level.toNat ref e = .ok m ∧ m.length = ref.segmentCount.toNat) ∧
    ∃ l, flat config pages head = .ok l ∧ LsnTiles head.header.oldestLSN.toNat head.header.nextLSN.toNat l ∧
      (∀ e ∈ l, e.minTimestampMS ≤ e.maxTimestampMS) ∧
      l.IsChain (fun a b => a.maxTimestampMS ≤ b.minTimestampMS) ∧ EpochOrder l ∧
      l.length = head.header.reachableSegmentCount.toNat ∧ (l ≠ [] → l.getLast? = some head.lastSegment) := by
  obtain ⟨l, hi⟩ := h.inv
  refine ⟨(validateHead_ok head).2 hi.valid, fun ref e hr => ?_, l, hi.contents, hi.tiles,
    fun e he => (hi.entries e he).timestamps, hi.times, hi.epochs, hi.reachable, fun hne => ?_⟩
  · obtain ⟨m, hm⟩ := hi.below hr
    exact ⟨loads_of_leaves hm, m, hm, (leaves_covers _ hm).count⟩
  · have hlast := List.getLast?_eq_some_getLast hne
    rw [hlast, hi.last _ hlast]

/-- A catalog of two segments below one index page. -/
theorem reachable_tree_two : letI := Sample.hashes
    validateHead Sample.two.head = .ok () ∧ Sample.two.head.header.segmentCount = 2 :=
  letI := Sample.hashes
  ⟨(reachable_tree Sample.reachable_two).1, by decide +kernel⟩

/-! ## An append-only list with deletion of a prefix -/

section
variable [Hashes]

omit [Hashes] in
/-- `min(before, NextLSN)`. -/
theorem retentionTarget_toNat (head : Head) (before : UInt64) :
    (retentionTarget head before).toNat = min before.toNat head.header.nextLSN.toNat := by
  unfold retentionTarget
  split
  · rename_i hgt
    have := UInt64.lt_iff_toNat_lt.1 hgt
    omega
  · rename_i hle
    have := UInt64.le_iff_toNat_le.1 (UInt64.not_lt.1 hle)
    omega

omit [Hashes] in
theorem LsnTiles.head_eq {a b : Nat} {l : List LeafEntry} (h : LsnTiles a b l) :
    a = (l.head?.map (·.baseLSN.toNat)).getD b := by
  cases l with
  | nil => exact h
  | cons e es => exact h.1.symm

omit [Hashes] in
/-- Setting the flag sets it. -/
theorem or_flag_and_flag (flags : UInt32) : (flags ||| flagHasLastSegment) &&& flagHasLastSegment = flagHasLastSegment := by
  rw [← UInt32.toNat_inj, UInt32.toNat_and, UInt32.toNat_or]
  apply Nat.eq_of_testBit_eq
  intro i
  simp only [Nat.testBit_and, Nat.testBit_or]
  cases flagHasLastSegment.toNat.testBit i <;> simp

omit [Hashes] in
theorem appendHeader_flag (head : Head) (entry : LeafEntry) :
    (appendHeader head entry).flags &&& flagHasLastSegment ≠ 0 := by
  by_cases hl : head.hasLastSegment = true
  · have hflags : (appendHeader head entry).flags = head.header.flags := by simp [appendHeader, hl]
    rw [hflags]
    simpa [Head.hasLastSegment] using hl
  · have hflags : (appendHeader head entry).flags = head.header.flags ||| flagHasLastSegment := by
      simp [appendHeader, hl]
    rw [hflags, or_flag_and_flag]
    decide

/-- Lifetime counters an append moves by one segment; neither wraps. -/
theorem append_counters {config : Config} {head : Head} {segment : SegmentRef} {m : Mutation}
    (h : append config head segment = .ok m) : m.head.header.segmentCount.toNat = head.header.segmentCount.toNat + 1 ∧
      m.head.header.nextLSN.toNat = segment.lastLSN.toNat + 1 := by
  obtain ⟨active, ss, hc, _, hhead, hm⟩ := append_ok h
  have hv := marshalHead_valid hm
  have hcount : m.head.header.segmentCount = head.header.segmentCount + 1 := by rw [hhead]; rfl
  have hflag : m.head.hasLastSegment = true := by
    rw [hhead, Head.hasLastSegment, decide_eq_true_eq]
    exact appendHeader_flag head (Config.entryOf segment)
  rcases hv.history with ⟨hno, _⟩ | ⟨_, hlast, _⟩
  · rw [hflag] at hno
    exact absurd hno (by simp)
  · have hne := hlast.segmentCount
    have hnext := hlast.next
    have hmax := hlast.entry.maxLSN
    have hseg : m.head.lastSegment = Config.entryOf segment := by rw [hhead]
    rw [hseg] at hnext hmax
    refine ⟨?_, by rw [← hnext, toNat_succ_of_room hmax]; rfl⟩
    rw [hcount] at hne ⊢
    have hlt := head.header.segmentCount.toNat_lt
    have hz : (head.header.segmentCount + 1).toNat ≠ 0 := fun hz => hne (UInt64.toNat_inj.1 hz)
    rw [UInt64.toNat_add] at hz ⊢
    simp only [UInt64.reduceToNat] at hz ⊢
    omega

/-- The catalog refines a list: append adds at the end, takeover changes nothing, retention removes
exactly the segments that end before the boundary. -/
theorem reachable_refines {config : Config} {pages pages' : Pages} {head : Head} {m : Mutation}
    (h : Reachable config pages head) (hg : Grows pages pages') (hs : Stored pages' m.pages) :
    ∃ l, flat config pages head = .ok l ∧ (∀ segment, append config head segment = .ok m →
        flat config pages' m.head = .ok (l ++ [Config.entryOf segment]) ∧
        m.head.header.segmentCount.toNat = head.header.segmentCount.toNat + 1 ∧
        m.head.header.nextLSN.toNat = segment.lastLSN.toNat + 1) ∧ (∀ writerID, takeover config head writerID = .ok m →
        flat config pages' m.head = .ok l ∧ m.head.header.nextLSN = head.header.nextLSN ∧
        m.head.header.oldestLSN = head.header.oldestLSN ∧ m.head.header.segmentCount = head.header.segmentCount ∧
        m.head.lastSegment = head.lastSegment) ∧
      (∀ before version, eval pages (applyRetention config head before version) = .ok m →
        version > head.header.appliedRetentionVersion →
        ∃ kept, kept = l.filter (fun e => decide (min before.toNat head.header.nextLSN.toNat ≤ e.lastLSN.toNat)) ∧
          flat config pages' m.head = .ok kept ∧
          m.head.header.oldestLSN.toNat = (kept.head?.map (·.baseLSN.toNat)).getD head.header.nextLSN.toNat ∧
          m.head.header.segmentCount = head.header.segmentCount ∧ m.head.lastSegment = head.lastSegment ∧
          m.head.header.nextLSN = head.header.nextLSN ∧ ∀ e ∈ l, before ≤ e.lastLSN → e ∈ kept) := by
  obtain ⟨l, hi⟩ := h.inv
  refine ⟨l, hi.contents, fun segment ha => ?_, fun writerID ht => ?_, fun before version hr hv => ?_⟩
  · exact ⟨(append_inv hi ha hg hs).contents, append_counters ha⟩
  · have heq := (takeover_ok ht).1.eq
    refine ⟨(takeover_inv hi ht hg).contents, ?_, ?_, ?_, ?_⟩ <;> rw [heq]
  · obtain ⟨k, hk, hkeq⟩ := applyRetention_inv hi hr hg hs
    obtain ⟨_, ⟨_, hsame, _⟩ | ⟨happ, _⟩⟩ := applyRetention_spec hi hr hg hs
    · exact absurd hv (by rw [hsame]; exact UInt64.lt_irrefl _)
    have hnext : m.head.header.nextLSN = head.header.nextLSN := by rw [happ.header]
    have hfilter : k = l.filter
        (fun e => decide (min before.toNat head.header.nextLSN.toNat ≤ e.lastLSN.toNat)) := by
      rw [hkeq hv, ← retentionTarget_toNat]
      rfl
    refine ⟨k, hfilter, hk.contents, ?_, by rw [happ.header], happ.last, hnext, fun e he hbe => ?_⟩
    · rw [← hnext]
      exact LsnTiles.head_eq hk.tiles
    · rw [hfilter, List.mem_filter, decide_eq_true_eq]
      have := UInt64.le_iff_toNat_le.1 hbe
      exact ⟨he, by omega⟩

end

set_option maxRecDepth 20000 in
/-- Cutting at 14 removes the segment that ends at 12. -/
theorem reachable_refines_cut : letI := Sample.hashes
    flat Sample.config Sample.cutStore Sample.cut.head = .ok [Config.entryOf (Sample.segment 13)] := by
  let _ := Sample.hashes
  obtain ⟨l, hl, _, _, hcut⟩ := reachable_refines (m := Sample.cut) Sample.reachable_two
    (Sample.pagesOf_grows (Sample.one.pages ++ Sample.two.pages) Sample.cut.pages) Sample.stored_cut
  have hvalues : Sample.two.head.header.appliedRetentionVersion < 1 ∧
      flat Sample.config Sample.store Sample.two.head =
        .ok [Config.entryOf (Sample.segment 10), Config.entryOf (Sample.segment 13)] := by decide +kernel
  obtain ⟨kept, rfl, hkept, _⟩ := hcut 14 1 Sample.cut_ok hvalues.1
  obtain rfl := Except.ok.inj (hl.symm.trans hvalues.2)
  exact hkept.trans (by decide +kernel)

/-! ## Lookups -/

section
variable [Hashes]

namespace Inv

variable {config : Config} {pages : Pages} {head : Head} {l : List LeafEntry}

variable (h : Inv config pages head l)
include h

/-- Without a last segment there is no range to retain. -/
theorem oldest_eq_next (hno : head.hasLastSegment = false) : head.header.oldestLSN = head.header.nextLSN := by
  rcases h.history with ⟨_, ho, _⟩ | ⟨hyes, _⟩
  · exact ho
  · rw [hno] at hyes
    exact absurd hyes (by simp)

theorem nil_of_oldest_eq_next (heq : head.header.oldestLSN = head.header.nextLSN) : l = [] :=
  h.tiles.eq_nil (Nat.le_of_eq (congrArg UInt64.toNat heq.symm))

/-- Maxima never fall, so the last segment reaches whatever any segment reaches. -/
theorem last_reaches {e : LeafEntry} (he : e ∈ l) {t : Int64}
    (hreach : reaches t e = true) : reaches t head.lastSegment = true := by
  have hne := List.ne_nil_of_mem he
  have hup := reaches_upward h.entries h.times t
  have hlast := h.last _ (List.getLast?_eq_some_getLast hne)
  have hsplit : l = l.dropLast ++ [head.lastSegment] := by
    rw [← hlast]
    exact (List.dropLast_append_getLast hne).symm
  rw [hsplit] at he hup
  rcases mem_concat.1 he with he | rfl
  · exact (Upward.append_iff.1 hup).2.2 e he _ List.mem_cons_self hreach
  · exact hreach

/-- A retained entry is found at each of its LSNs. -/
theorem findSegment_of_mem {f : LeafEntry} {x : UInt64} (hf : f ∈ l) (hlo : f.baseLSN ≤ x) (hhi : x ≤ f.lastLSN) :
    eval pages (findSegment config head x) = .ok (some (config.segmentRef f)) := by
  have hb := h.tiles.mem_bounds hf
  have hx := And.intro (UInt64.le_iff_toNat_le.1 hlo) (UInt64.le_iff_toNat_le.1 hhi)
  obtain ⟨e, he, hfind, heb, hel⟩ := h.tiles.find_contains (Nat.le_trans hb.1 hx.1) (Nat.lt_of_le_of_lt hx.2 hb.2.2)
  obtain rfl := h.tiles.unique hf he hx ⟨heb, hel⟩
  have hsome : l.find? (endsFrom x) = some f := hfind
  rw [findSegment_eq h, if_neg, findFlat, hsome, Option.bind_some, answerAt, if_neg (UInt64.not_lt.2 hlo)]
  rintro (hno | hlt | hge)
  · simp [h.nil_of_oldest_eq_next (h.oldest_eq_next (by simpa using hno))] at hf
  · exact absurd (Nat.le_trans hb.1 hx.1) (Nat.not_le.2 (UInt64.lt_iff_toNat_lt.1 hlt))
  · exact absurd (Nat.lt_of_le_of_lt hx.2 hb.2.2) (Nat.not_lt.2 (UInt64.le_iff_toNat_le.1 hge))

end Inv

/-- `FindSegment` and `LookupTimestamp` answer from the history, and never fail. -/
theorem reachable_lookups {config : Config} {pages : Pages} {head : Head} (h : Reachable config pages head) :
    ∃ l, flat config pages head = .ok l ∧ (∀ x, head.header.oldestLSN ≤ x → x < head.header.nextLSN →
        ∃ e, (e ∈ l ∧ e.baseLSN ≤ x ∧ x ≤ e.lastLSN) ∧ (∀ f ∈ l, f.baseLSN ≤ x → x ≤ f.lastLSN → f = e) ∧
          eval pages (findSegment config head x) = .ok (some (config.segmentRef e))) ∧
      (∀ x, (x < head.header.oldestLSN ∨ head.header.nextLSN ≤ x) → eval pages (findSegment config head x) = .ok none) ∧
      (∀ t, eval pages (lookupTimestamp config head t) =
        .ok ((l.find? fun e => decide (t ≤ e.maxTimestampMS)).map config.segmentRef)) := by
  obtain ⟨l, hi⟩ := h.inv
  refine ⟨l, hi.contents, fun x hlo hhi => ?_, fun x hout => ?_, fun t => ?_⟩
  · have hin : ¬((!head.hasLastSegment) = true ∨ x < head.header.oldestLSN ∨ x ≥ head.header.nextLSN) := by
      rintro (hno | hlt | hge)
      · rw [hi.oldest_eq_next (by simpa using hno)] at hlo
        exact absurd hhi (UInt64.not_lt.2 hlo)
      · exact absurd hlt (UInt64.not_lt.2 hlo)
      · exact absurd hhi (UInt64.not_lt.2 hge)
    obtain ⟨e, he, hfind, hb, hl⟩ :=
      hi.tiles.find_contains (UInt64.le_iff_toNat_le.1 hlo) (UInt64.lt_iff_toNat_lt.1 hhi)
    have hbase : e.baseLSN ≤ x := UInt64.le_iff_toNat_le.2 hb
    have hsame : l.find? (endsFrom x) = some e := hfind
    refine ⟨e, ⟨he, hbase, UInt64.le_iff_toNat_le.2 hl⟩, fun f hf hfb hfl => ?_, ?_⟩
    · exact hi.tiles.unique hf he ⟨UInt64.le_iff_toNat_le.1 hfb, UInt64.le_iff_toNat_le.1 hfl⟩ ⟨hb, hl⟩
    · rw [findSegment_eq hi, if_neg hin, findFlat, hsame, Option.bind_some, answerAt, if_neg (UInt64.not_lt.2 hbase)]
  · rw [findSegment_eq hi, if_pos (hout.elim (fun hlt => .inr (.inl hlt)) fun hge => .inr (.inr hge))]
  · rw [lookupTimestamp_eq hi]
    split
    · rename_i hnone
      -- each early exit means that no retained segment reaches `t`
      have hno : l.find? (fun e => decide (t ≤ e.maxTimestampMS)) = none := by
        rw [List.find?_eq_none]
        intro e he hreach
        rcases hnone with hno | heq | hgt
        · simp [hi.nil_of_oldest_eq_next (hi.oldest_eq_next (by simpa using hno))] at he
        · simp [hi.nil_of_oldest_eq_next heq] at he
        · have hend := hi.last_reaches he hreach
          simp only [reaches, ge_iff_le, decide_eq_true_eq] at hend
          exact absurd hgt (Int64.not_lt.2 hend)
      rw [hno]
      rfl
    · rfl

end

/-- LSN 14 lies in the second segment, LSN 16 after the history. -/
theorem reachable_lookups_two : letI := Sample.hashes
    (∃ e, eval Sample.store (findSegment Sample.config Sample.two.head 14) = .ok (some (Sample.config.segmentRef e))) ∧
      eval Sample.store (findSegment Sample.config Sample.two.head 16) = .ok none := by
  let _ := Sample.hashes
  obtain ⟨_, _, hin, hout, _⟩ := reachable_lookups Sample.reachable_two
  have hbounds : Sample.two.head.header.oldestLSN = 10 ∧ Sample.two.head.header.nextLSN = 16 := by decide +kernel
  obtain ⟨e, _, _, he⟩ := hin 14 (by rw [hbounds.1]; decide) (by rw [hbounds.2]; decide)
  exact ⟨⟨e, he⟩, hout 16 (.inr (by rw [hbounds.2]; decide))⟩

end ObjLog.Catengine
