import ObjLog.Catengine.Room
/-!
# Which segments an append accepts

The ranges of the roots join to one range, and sealing replaces the last of
them by their join (`Joins.replace`). So the pages and the head that an append builds
pass every validator, and its sections have room as long as fewer than `2 ^ 64`
segments were appended. What remains is one condition on the segment:
validation wants a last segment to leave room for another one.
-/

namespace ObjLog.Catengine

open Lib Catformat Pmeta Blobstore
open UInt64 (le_iff_toNat_le le_refl le_trans reduceToNat)
open Config (entryOf)

variable {rs : List RootRange} {r x : RootRange} {header : HeadHeader} {ss : List OpenIndexSection}

/-! ## Ranges that join -/

/-- What validation knows about the range of a root. -/
structure RangeOk (r : RootRange) : Prop where
  range : r.seqLo.toNat ≤ r.seqHi.toNat
  maxLSN : r.seqHi ≤ maxRecordLSN
  times : r.minTS ≤ r.maxTS
  segments_pos : 1 ≤ r.segments.toNat
  span : r.seqLo.toNat + r.segments.toNat ≤ r.seqHi.toNat + 1

/-- The ranges continue each other and `r` is their join. -/
structure Joins (rs : List RootRange) (r : RootRange) : Prop where
  first : ∃ x ∈ rs.head?, x.seqLo = r.seqLo ∧ x.minTS = r.minTS
  last : ∃ x ∈ rs.getLast?, x.seqHi = r.seqHi ∧ x.maxTS = r.maxTS
  chain : rs.IsChain RootNext
  count : r.segments.toNat = rootSegments rs

theorem rootSegments_append (xs ys : List RootRange) : rootSegments (xs ++ ys) = rootSegments xs + rootSegments ys := by
  simp [rootSegments]

theorem Joins.single (r : RootRange) : Joins [r] r :=
  ⟨⟨r, rfl, rfl, rfl⟩, ⟨r, rfl, rfl, rfl⟩, .singleton r, by simp [rootSegments]⟩

/-- One more range at the end. -/
theorem Joins.snoc {s : RootRange} (h : Joins rs r)
    (hnext : ∀ y ∈ rs.getLast?, RootNext y x) (hlo : s.seqLo = r.seqLo) (hmin : s.minTS = r.minTS)
    (hhi : s.seqHi = x.seqHi) (hmax : s.maxTS = x.maxTS) (hcount : s.segments.toNat = r.segments.toNat + x.segments.toNat) :
    Joins (rs ++ [x]) s := by
  obtain ⟨f, hf, hf1, hf2⟩ := h.first
  have hne : rs ≠ [] := by rintro rfl; simp at hf
  refine ⟨⟨f, ?_, hf1.trans hlo.symm, hf2.trans hmin.symm⟩, ⟨x, by simp, hhi.symm, hmax.symm⟩, ?_, ?_⟩
  · rwa [List.head?_append_of_ne_nil _ hne]
  · refine List.isChain_append.2 ⟨h.chain, by simp, fun y hy z hz => ?_⟩
    obtain rfl : x = z := by simpa using hz
    exact hnext y hy
  · rw [hcount, h.count, rootSegments_append]
    simp [rootSegments]

/-- The last ranges may be replaced by their join. -/
theorem Joins.replace {xs ys : List RootRange} {s : RootRange} (h : Joins (xs ++ ys) r) (hs : Joins ys s) :
    Joins (xs ++ [s]) r := by
  obtain ⟨f, hf, hf1, hf2⟩ := hs.first
  obtain ⟨e, he, he1, he2⟩ := hs.last
  have hne : ys ≠ [] := by rintro rfl; simp at hf
  obtain ⟨hxs, _, hcross⟩ := List.isChain_append.1 h.chain
  refine ⟨?_, ⟨s, by simp, ?_⟩, ?_, ?_⟩
  · obtain ⟨g, hg, hg1, hg2⟩ := h.first
    cases xs with
    | nil =>
      obtain rfl : f = g := by simpa using hf.symm.trans hg
      exact ⟨s, rfl, hf1.symm.trans hg1, hf2.symm.trans hg2⟩
    | cons x xs => exact ⟨g, by simpa using hg, hg1, hg2⟩
  · obtain ⟨g, hg, hg1, hg2⟩ := h.last
    rw [List.getLast?_append_of_ne_nil _ hne] at hg
    obtain rfl : e = g := by simpa using he.symm.trans hg
    exact ⟨he1.symm.trans hg1, he2.symm.trans hg2⟩
  · refine List.isChain_append.2 ⟨hxs, by simp, fun x hx z hz => ?_⟩
    obtain rfl : s = z := by simpa using hz
    have hnext := hcross x hx f hf
    exact ⟨hnext.room, hf1 ▸ hnext.base, hf2 ▸ hnext.timestamps⟩
  · rw [h.count, rootSegments_append, rootSegments_append, ← hs.count]
    simp [rootSegments]

/-- A chain of good ranges spans at least one LSN for each segment. -/
theorem chain_span {xs : List RootRange} (hok : ∀ y ∈ x :: xs, RangeOk y)
    (hchain : (x :: xs).IsChain RootNext) : ∀ e ∈ (x :: xs).getLast?,
      x.seqLo.toNat + rootSegments (x :: xs) ≤ e.seqHi.toNat + 1 ∧ x.minTS ≤ e.maxTS ∧
      (x :: xs).length ≤ rootSegments (x :: xs) := by
  induction xs generalizing x with
  | nil =>
    intro e he
    obtain rfl : x = e := by simpa using he
    have hx := hok x List.mem_cons_self
    refine ⟨by simpa [rootSegments] using hx.span, hx.times, by simpa [rootSegments] using hx.segments_pos⟩
  | cons y ys ih =>
    intro e he
    obtain ⟨hnext, hrest⟩ := List.isChain_cons_cons.1 hchain
    have hx := hok x List.mem_cons_self
    obtain ⟨h1, h2, h3⟩ := ih (fun z hz => hok z (List.mem_cons_of_mem _ hz)) hrest e (by simpa using he)
    have hbase := congrArg UInt64.toNat hnext.base
    rw [toNat_succ_of_room hx.maxLSN] at hbase
    have hspan := hx.span
    have hpos := hx.segments_pos
    rw [rootSegments_cons]
    refine ⟨by omega, ?_, by simp only [List.length_cons] at h3 ⊢; omega⟩
    exact Int64.le_trans hx.times (Int64.le_trans hnext.timestamps h2)

/-- The join of good ranges is one. -/
theorem Joins.rangeOk (h : Joins rs r) (hok : ∀ x ∈ rs, RangeOk x) : RangeOk r ∧ rs.length ≤ r.segments.toNat := by
  obtain ⟨f, hf, hf1, hf2⟩ := h.first
  obtain ⟨e, he, he1, he2⟩ := h.last
  obtain ⟨xs, rfl⟩ := List.head?_eq_some_iff.1 hf
  obtain ⟨hspan, htimes, hlen⟩ := chain_span hok h.chain e he
  have hend := hok e (List.mem_of_getLast? he)
  have hpos : 1 ≤ rootSegments (f :: xs) := by simp only [List.length_cons] at hlen; omega
  rw [← h.count, hf1, he1] at hspan
  rw [← h.count] at hlen hpos
  refine ⟨⟨by omega, he1 ▸ hend.maxLSN, hf2 ▸ he2 ▸ htimes, hpos, hspan⟩, hlen⟩

theorem leafEntry_rangeOk {e : LeafEntry} (h : LeafEntryOk e) : RangeOk e.root := by
  have hrange := le_iff_toNat_le.1 h.range
  exact ⟨hrange, h.maxLSN, h.timestamps, Nat.le_refl 1, Nat.add_le_add_right hrange 1⟩

theorem toNat_span {lo hi : UInt64} (h : lo ≤ hi) (hmax : hi ≤ maxRecordLSN) :
    (hi - lo + 1).toNat + lo.toNat = hi.toNat + 1 := by
  have hle := le_iff_toNat_le.1 h
  have hroom : (hi - lo) ≤ maxRecordLSN := by
    rw [le_iff_toNat_le, UInt64.toNat_sub_of_le _ _ h]
    have := le_iff_toNat_le.1 hmax
    omega
  rw [toNat_succ_of_room hroom, UInt64.toNat_sub_of_le _ _ h]
  omega

theorem indexEntry_rangeOk {e : IndexEntry} (h : IndexEntryOk e) : RangeOk e.root := by
  have hspan := toNat_span h.range h.maxLSN
  have hle := le_iff_toNat_le.1 h.span
  have hcount := le_iff_toNat_le.1 h.count
  have hpos : e.entryCount.toNat ≠ 0 := fun h0 => h.entries (UInt32.toNat_inj.1 h0)
  rw [UInt32.toNat_toUInt64] at hcount
  refine ⟨le_iff_toNat_le.1 h.range, h.maxLSN, h.timestamps, ?_, ?_⟩
  · change 1 ≤ e.segmentCount.toNat
    omega
  · change e.seqLo.toNat + e.segmentCount.toNat ≤ e.seqHi.toNat + 1
    omega

/-! ## Sealing -/

section
variable [Hashes]

theorem trailer_total {algo : HashAlgo} (h : algo.validate = .ok ()) (body : Bytes) :
    ∃ encoded, appendTrailer body algo = .ok encoded := by
  refine appendTrailer_ok ?_ body
  simp only [validateHashAlgo, restate_ok]
  exact h

theorem marshalLeafPage_total {page : LeafPage} (h : LeafPageOk page) (ha : page.header.hashAlgo.validate = .ok ()) :
    ∃ encoded, marshalLeafPage page = .ok (encoded, pageID (leafPageBody page)) := by
  obtain ⟨encoded, henc⟩ := trailer_total ha (leafPageBody page)
  simp only [marshalLeafPage, bind_ok, exists_unit, pure_ok]
  exact ⟨encoded, (validateLeafPage_ok _).2 h, encoded, henc, rfl⟩

theorem marshalIndexPage_total {page : IndexPage} (h : IndexPageOk page) (ha : page.header.hashAlgo.validate = .ok ()) :
    ∃ encoded, marshalIndexPage page = .ok (encoded, pageID (indexPageBody page)) := by
  obtain ⟨encoded, henc⟩ := trailer_total ha (indexPageBody page)
  simp only [marshalIndexPage, bind_ok, exists_unit, pure_ok]
  exact ⟨encoded, (validateIndexPage_ok _).2 h, encoded, henc, rfl⟩

theorem marshalHead_total {head : Head} (h : HeadOk head) : ∃ body, marshalHead head = .ok body := by
  obtain ⟨encoded, henc⟩ := trailer_total h.header.hashAlgo (headBody head)
  simp only [marshalHead, checks_ok]
  exact ⟨encoded, (validateHead_ok head).2 h, henc⟩

/-- What every page of one mutation has in common. No page id is zero: an id is
half a digest, and validation takes a zero one for a missing id. -/
structure Seals (config : Config) (generation writerEpoch : UInt64) : Prop where
  ids : ∀ body, isZero16 (pageID body) = false
  hashAlgo : config.hashAlgo.validate = .ok ()
  streamKey : isZero32 config.streamKey = false
  generation : generation ≠ 0
  writerEpoch : writerEpoch ≠ 0

variable {config : Config} {generation writerEpoch : UInt64}

omit [Hashes] in
theorem commonHeader_ok {header : PageHeader} (hf : header.flags = 0) (ha : header.hashAlgo.validate = .ok ())
    (hg : header.generation ≠ 0) (hw : header.writerEpoch ≠ 0) (hs : isZero32 header.streamKey = false) :
    validateCommonPageHeader header = .ok () := by
  simp only [validateCommonPageHeader, checks_ok, not_not, ne_eq, Bool.not_eq_true]
  exact ⟨hf, ha, hg, hw, hs⟩

omit [Hashes] in
/-- The reference to a page that joins good ranges is valid. -/
theorem refOf_ok {header : PageHeader} {id : Arr 16} (hj : Joins rs (refOf header id).root)
    (hok : ∀ x ∈ rs, RangeOk x) (hlevel : header.level.toNat ≤ maxIndexLevel)
    (hcount : header.entryCount = UInt32.ofNat rs.length) (hmax : rs.length ≤ 1024) (hgen : header.generation ≠ 0)
    (hid : isZero16 id = false) (hleaf : header.level = 0 → header.segmentCount = UInt64.ofNat rs.length) :
    IndexEntryOk (refOf header id) := by
  obtain ⟨hr, hlen⟩ := hj.rangeOk hok
  have hpos : rs ≠ [] := by
    obtain ⟨f, hf, _⟩ := hj.first
    rintro rfl
    simp at hf
  have hlo : header.seqLo ≤ header.seqHi := le_iff_toNat_le.2 hr.range
  have hspan := toNat_span hlo hr.maxLSN
  have hwide : header.entryCount.toUInt64.toNat = rs.length := by rw [hcount, UInt32.toNat_toUInt64, toNat_count hmax]
  refine ⟨hlevel, hlo, hr.maxLSN, hr.times, ?_, ?_, hgen, hid, ?_, fun h0 => ?_, ?_⟩
  · intro h0
    have := congrArg UInt32.toNat (hcount.symm.trans h0)
    rw [toNat_count hmax] at this
    exact hpos (List.length_eq_zero_iff.1 this)
  · change header.entryCount.toNat ≤ _
    rw [hcount, toNat_count hmax]
    split <;> exact hmax
  · exact le_iff_toNat_le.2 (by rw [show (refOf header id).entryCount = header.entryCount from rfl, hwide]; exact hlen)
  · refine (hleaf h0).trans (UInt64.toNat_inj.1 ?_)
    rw [show (refOf header id).entryCount = header.entryCount from rfl, hwide,
      UInt64.toNat_ofNat_of_lt' (by simp only [UInt64.size]; omega)]
  · have := hr.span
    refine le_iff_toNat_le.2 ?_
    change header.segmentCount.toNat ≤ (header.seqHi - header.seqLo + 1).toNat
    change header.seqLo.toNat + header.segmentCount.toNat ≤ header.seqHi.toNat + 1 at this
    omega

omit [Hashes] in
theorem exists_ends {α : Type} {l : List α} (hne : l ≠ []) (d : α) :
    ∃ x y, l.head? = some x ∧ l.getLast? = some y ∧ l.headD d = x ∧ l.getLastD d = y :=
  ⟨_, _, List.head?_eq_some_head hne, List.getLast?_eq_some_getLast hne,
    by rw [List.headD_eq_head?_getD, List.head?_eq_some_head hne]; rfl,
    by rw [List.getLastD_eq_getLast?, List.getLast?_eq_some_getLast hne]; rfl⟩

/-- Sealing valid entries that continue each other succeeds, and the reference joins them. -/
theorem sealLeaf_total (hs : Seals config generation writerEpoch) {entries : List LeafEntry} (hne : entries ≠ [])
    (hmax : entries.length ≤ maxLeafEntries) (hok : ∀ e ∈ entries, LeafEntryOk e) (hchain : entries.IsChain LeafNext)
    (hepoch : ∀ e ∈ entries, e.writerEpoch ≤ writerEpoch) :
    ∃ ref object, sealLeaf config generation writerEpoch entries = .ok (ref, object) ∧ ChildOk 1 generation ref ∧
      Joins (entries.map LeafEntry.root) ref.root := by
  obtain ⟨first, last, hfirst, hlast, hheadD, hlastD⟩ := exists_ends hne .zero
  let header := leafHeader config generation writerEpoch entries first last
  have hpage : LeafPageOk ⟨header, entries⟩ :=
    ⟨commonHeader_ok rfl hs.hashAlgo hs.generation hs.writerEpoch hs.streamKey, rfl, rfl, hne, hmax, rfl, rfl, hok,
      hchain, by rw [hheadD]; rfl, by rw [hlastD]; rfl, by rw [hheadD]; rfl, by rw [hlastD]; rfl,
      by rw [hlastD]; exact hepoch last (List.mem_of_getLast? hlast)⟩
  obtain ⟨encoded, hmarshal⟩ := marshalLeafPage_total hpage hs.hashAlgo
  have hcount : (UInt64.ofNat entries.length).toNat = entries.length :=
    UInt64.toNat_ofNat_of_lt' (by simp only [UInt64.size, maxLeafEntries] at *; omega)
  have hjoin : Joins (entries.map LeafEntry.root) (refOf header (pageID (leafPageBody ⟨header, entries⟩))).root := by
    refine ⟨⟨first.root, by simp [hfirst], rfl, rfl⟩, ⟨last.root, by simp [hlast], rfl, rfl⟩, ?_, ?_⟩
    · exact (List.isChain_map _).2 (hchain.imp fun _ _ hn => ⟨hn.room, hn.base, hn.timestamps⟩)
    · change (UInt64.ofNat entries.length).toNat = _
      rw [hcount, rootSegments]
      simp [LeafEntry.root, Function.comp_def]
  have hseal : ∃ object, sealLeaf config generation writerEpoch entries =
      .ok (refOf header (pageID (leafPageBody ⟨header, entries⟩)), object) := by
    unfold sealLeaf
    rw [hfirst, hlast]
    simp only [bind_ok, pure_ok, Prod.exists]
    exact ⟨_, _, _, hmarshal, rfl⟩
  obtain ⟨object, hseal⟩ := hseal
  refine ⟨_, object, hseal, ⟨refOf_ok hjoin ?_ (Nat.zero_le _) ?_ ?_ hs.generation (hs.ids _) fun _ => ?_, rfl,
    le_refl _⟩, hjoin⟩
  · intro x hx
    obtain ⟨e, he, rfl⟩ := List.mem_map.1 hx
    exact leafEntry_rangeOk (hok e he)
  · rw [List.length_map]
    rfl
  · rw [List.length_map]
    exact hmax
  · rw [List.length_map]
    rfl

omit [Hashes] in
/-- The running total is the count when the count fits. -/
theorem addSegments_total (es : List IndexEntry) (total : UInt64) (h : total.toNat + countSegments es < 2 ^ 64) :
    ∃ n : UInt64, es.foldlM addSegments total = .ok n ∧ n.toNat = total.toNat + countSegments es := by
  induction es generalizing total with
  | nil => exact ⟨total, rfl, by simp⟩
  | cons e es ih =>
    rw [countSegments_cons] at h
    have hfits : e.segmentCount ≤ maxUint64 - total := le_sub_iff_guarded.2 (by omega)
    have hadd := toNat_add_guarded hfits
    have hstep : addSegments total e = .ok (total + e.segmentCount) := by
      simp only [addSegments, checks_ok]
      exact ⟨UInt64.not_lt.2 hfits, trivial⟩
    obtain ⟨n, hn, hval⟩ := ih (total + e.segmentCount) (by omega)
    refine ⟨n, ?_, by rw [hval, hadd, countSegments_cons]; omega⟩
    rw [List.foldlM_cons, hstep]
    exact hn

omit [Hashes] in
theorem rootSegments_map (es : List IndexEntry) : rootSegments (es.map IndexEntry.root) = countSegments es := by
  simp [rootSegments, countSegments, IndexEntry.root, Function.comp_def]

theorem sealIndex_total (hs : Seals config generation writerEpoch) {level : UInt8} (hpos : level ≠ 0)
    (hlevel : level.toNat ≤ maxIndexLevel) {entries : List IndexEntry} (hne : entries ≠ [])
    (hmax : entries.length ≤ maxIndexEntries) (hok : ∀ e ∈ entries, ChildOk level generation e)
    (hchain : (entries.map IndexEntry.root).IsChain RootNext) :
    ∃ ref object, sealIndex config generation writerEpoch level entries = .ok (ref, object) ∧
      ChildOk (level + 1) generation ref ∧ Joins (entries.map IndexEntry.root) ref.root := by
  obtain ⟨first, last, hfirst, hlast, hheadD, hlastD⟩ := exists_ends hne .zero
  have hranges : ∀ x ∈ entries.map IndexEntry.root, RangeOk x := by
    intro x hx
    obtain ⟨e, he, rfl⟩ := List.mem_map.1 hx
    exact indexEntry_rangeOk (hok e he).entry
  -- the span of the entries bounds their count, so the total does not overflow
  have hfits : countSegments entries < 2 ^ 64 := by
    obtain ⟨xs, rfl⟩ := List.head?_eq_some_iff.1 hfirst
    obtain ⟨hspan, _⟩ := chain_span hranges hchain last.root (by rw [← List.map_cons, List.getLast?_map, hlast]; rfl)
    have hend := le_iff_toNat_le.1 (hranges last.root (List.mem_map_of_mem (List.mem_of_getLast? hlast))).maxLSN
    rw [← List.map_cons, rootSegments_map] at hspan
    simp only [maxRecordLSN, reduceToNat] at hend
    omega
  obtain ⟨total, htotal, hval⟩ := addSegments_total entries 0 (by simpa using hfits)
  rw [UInt64.toNat_zero, Nat.zero_add] at hval
  let header := indexHeader config generation writerEpoch level entries first last total
  have hnext : entries.IsChain IndexNext :=
    ((List.isChain_map _).1 hchain).imp fun _ _ hn => ⟨hn.room, hn.base, hn.timestamps⟩
  have hpage : IndexPageOk ⟨header, entries⟩ :=
    ⟨commonHeader_ok rfl hs.hashAlgo hs.generation hs.writerEpoch hs.streamKey, hpos, hlevel, rfl, hne, hmax, rfl, hok,
      hnext, hval, by rw [hheadD]; rfl, by rw [hlastD]; rfl, by rw [hheadD]; rfl, by rw [hlastD]; rfl⟩
  obtain ⟨encoded, hmarshal⟩ := marshalIndexPage_total hpage hs.hashAlgo
  have hjoin : Joins (entries.map IndexEntry.root) (refOf header (pageID (indexPageBody ⟨header, entries⟩))).root :=
    ⟨⟨first.root, by simp [hfirst], rfl, rfl⟩, ⟨last.root, by simp [hlast], rfl, rfl⟩, hchain,
      hval.trans (rootSegments_map entries).symm⟩
  have hseal : ∃ object, sealIndex config generation writerEpoch level entries =
      .ok (refOf header (pageID (indexPageBody ⟨header, entries⟩)), object) := by
    unfold sealIndex
    rw [hfirst, hlast]
    simp only [bind_ok, pure_ok, Prod.exists]
    exact ⟨_, _, htotal, _, _, hmarshal, rfl⟩
  obtain ⟨object, hseal⟩ := hseal
  refine ⟨_, object, hseal, ⟨refOf_ok hjoin hranges hlevel ?_ ?_ hs.generation (hs.ids _) fun h0 => absurd h0 hpos, rfl,
    le_refl _⟩, hjoin⟩
  · rw [List.length_map]
    rfl
  · rw [List.length_map]
    exact hmax

/-! ## Carrying -/

/-- The sections of a head that is being built. -/
def SectionsOk (header : HeadHeader) (ss : List OpenIndexSection) : Prop :=
  ∀ (j : Nat) (s : OpenIndexSection), ss[j]? = some s → SectionOk header (j + 1) s

omit [Hashes] in
theorem SectionsOk.grow (h : SectionsOk header ss)
    (hpos : 0 < header.indexLimit.toNat) (level : Nat) : SectionsOk header (growSections level ss) := by
  intro j s hs
  unfold growSections at hs
  rcases Nat.lt_or_ge j ss.length with hj | hj
  · rw [List.getElem?_append_left hj] at hs
    exact h j s hs
  · rw [List.getElem?_append_right hj, List.getElem?_map, Option.map_eq_some_iff] at hs
    obtain ⟨n, hn, rfl⟩ := hs
    obtain ⟨hlt, rfl⟩ := List.getElem?_eq_some_iff.1 hn
    refine ⟨?_, hpos, by simp⟩
    change UInt8.ofNat _ = _
    congr 1
    simp only [List.getElem_range']
    omega

omit [Hashes] in
theorem SectionsOk.set (h : SectionsOk header ss) {i : Nat}
    {es : List IndexEntry} (hlen : es.length < header.indexLimit.toNat)
    (hes : ∀ e ∈ es, ChildOk (UInt8.ofNat (i + 1)) header.generation e) : SectionsOk header (setEntries ss i es) := by
  intro j s hs
  unfold setEntries at hs
  rw [List.getElem?_modify] at hs
  by_cases hij : i = j
  · subst hij
    obtain ⟨t, ht, rfl⟩ := Option.map_eq_some_iff.1 hs
    have hold := (h i t ht).level
    simp only [if_true]
    exact ⟨hold, hlen, by rw [hold]; exact hes⟩
  · exact h j s (by simpa [hij] using hs)

omit [Hashes] in
theorem length_setEntries (ss : List OpenIndexSection) (i : Nat) (es : List IndexEntry) :
    (setEntries ss i es).length = ss.length := by
  simp [setEntries]

/-- Pushing a reference that continues the history succeeds while the counter has room. -/
theorem push_total (hs : Seals config header.generation header.writerEpoch)
    (hlimit : header.indexLimit = config.indexLimit) (htwo : 2 ≤ config.indexLimit.toNat)
    (hmax : config.indexLimit.toNat ≤ maxIndexEntries) (fuel : Nat) {level : Nat} {ref : IndexEntry}
    (hfuel : maxOpenIndexLevel < level + fuel) (hpos : 0 < level)
    (hlevel : level ≤ maxOpenIndexLevel) (hss : SectionsOk header ss) (hlen : ss.length ≤ maxOpenIndexLevel)
    (href : ChildOk (UInt8.ofNat level) header.generation ref) (hemp : EmptyBelow (level - 1) ss)
    (hjoin : Joins ((sectionRefs ss ++ [ref]).map IndexEntry.root) r)
    (hroom : weight config.indexLimit.toNat ss + config.indexLimit.toNat ^ (level - 1) < 2 ^ 64) :
    ∃ ss' objects, push config header.generation header.writerEpoch fuel level ref ss = .ok (ss', objects) ∧
      SectionsOk header ss' ∧ ss'.length ≤ maxOpenIndexLevel ∧ Joins ((sectionRefs ss').map IndexEntry.root) r := by
  induction fuel generalizing level ref ss with
  | zero => omega
  | succ fuel ih =>
    have hgrown : (growSections level ss).length ≤ maxOpenIndexLevel := by
      rw [length_growSections]
      omega
    obtain ⟨lower, s, upper, hsplit⟩ := exists_splitAt_grow hpos.ne' ss
    have hat : (growSections level ss)[level - 1]? = some s := by
      rw [hsplit.eq, ← hsplit.index]
      simp
    have hss' := hss.grow (by rw [hlimit]; omega) level
    have hsec := hss' _ _ hat
    have hsucc : level - 1 + 1 = level := by omega
    have hemp' := hemp.grow level
    have hseclen : s.entries.length + 1 ≤ config.indexLimit.toNat := by
      have := hsec.limit
      rw [hlimit] at this
      omega
    have hentries : ∀ e ∈ s.entries ++ [ref], ChildOk (UInt8.ofNat level) header.generation e := by
      intro e he
      rcases mem_concat.1 he with he | rfl
      · have := hsec.entries e he
        rwa [hsec.level, hsucc] at this
      · exact href
    have hrefs : sectionRefs ss = sectionRefs upper ++ s.entries := by
      rw [← sectionRefs_grow level, hsplit.refs_self hemp']
    rw [hrefs, List.append_assoc, List.map_append] at hjoin
    -- a full terminal section would weigh `indexLimit ^ 64` leaves
    have hterminal : ¬(level = maxOpenIndexLevel ∧ s.entries.length + 1 ≥ config.indexLimit.toNat) := by
      rintro ⟨heq, hge⟩
      have hw := hsplit.weight config.indexLimit.toNat
      rw [weight_grow] at hw
      have hsum := Nat.mul_le_mul_left (config.indexLimit.toNat ^ (level - 1)) hge
      have hpow : 2 ^ 64 ≤ config.indexLimit.toNat ^ (level - 1) * config.indexLimit.toNat := by
        rw [← Nat.pow_succ, heq]
        exact Nat.pow_le_pow_left htwo 64
      rw [Nat.mul_add] at hw
      rw [Nat.mul_add, Nat.mul_one] at hsum
      omega
    have hshort : (UInt32.ofNat (s.entries ++ [ref]).length).toNat = s.entries.length + 1 := by
      rw [List.length_append]
      exact toNat_count (Nat.le_trans hseclen hmax)
    by_cases hlt : UInt32.ofNat (s.entries ++ [ref]).length < config.indexLimit
    · -- the section has room
      refine ⟨setEntries (growSections level ss) (level - 1) (s.entries ++ [ref]), [], ?_, ?_, ?_, ?_⟩
      · simp only [push, checks_ok, hsplit.entries, if_pos hlt]
        exact ⟨by omega, hterminal, trivial⟩
      · refine hss'.set ?_ (by rw [hsucc]; exact hentries)
        rw [hlimit, List.length_append]
        have := UInt32.lt_iff_toNat_lt.1 hlt
        rwa [hshort] at this
      · rw [length_setEntries]
        exact hgrown
      · rw [hsplit.refs hemp', List.map_append]
        exact hjoin
    · -- the section is sealed; it was not the terminal one
      have hfull : s.entries.length + 1 = config.indexLimit.toNat := by
        have := UInt32.le_iff_toNat_le.1 (UInt32.not_lt.1 hlt)
        omega
      have hbelow : level < maxOpenIndexLevel := by
        rcases Nat.lt_or_eq_of_le hlevel with h | h
        · exact h
        · exact absurd ⟨h, by omega⟩ hterminal
      have hnat : (UInt8.ofNat level).toNat = level :=
        UInt8.toNat_ofNat_of_lt' (by simp only [UInt8.size, maxOpenIndexLevel, maxIndexLevel] at *; omega)
      have hnext : UInt8.ofNat level + 1 = UInt8.ofNat (level + 1) := (UInt8.ofNat_add level 1).symm
      have hne0 : UInt8.ofNat level ≠ 0 := by
        intro h0
        have := congrArg UInt8.toNat h0
        rw [hnat] at this
        simp at this
        omega
      obtain ⟨parent, object, hseal, hparent, hpjoin⟩ := sealIndex_total hs hne0
        (by rw [hnat]; simp only [maxOpenIndexLevel] at hbelow; omega) (by simp)
        (by rw [List.length_append]; simp only [List.length_singleton]; omega) hentries
        (List.isChain_append.1 hjoin.chain).2.1
      rw [hnext] at hparent
      have hrefs' := hsplit.refs hemp' []
      rw [List.append_nil] at hrefs'
      have hclear := hemp'.clear
      rw [hsucc] at hclear
      have hweight : weight config.indexLimit.toNat (setEntries (growSections level ss) (level - 1) []) +
          config.indexLimit.toNat ^ (level + 1 - 1) < 2 ^ 64 := by
        have hw := hsplit.weight config.indexLimit.toNat
        rw [weight_grow] at hw
        rw [hsplit.weight_setEntries, Nat.add_sub_cancel, ← hsucc, Nat.pow_succ, hsucc]
        have hcarry := congrArg (config.indexLimit.toNat ^ (level - 1) * ·) hfull
        simp only [List.length_nil, Nat.zero_add, Nat.mul_add, Nat.mul_one] at hw hcarry ⊢
        omega
      obtain ⟨ss', objects, hpush, hok, hlen', hjoin'⟩ := @ih
        (setEntries (growSections level ss) (level - 1) []) (level + 1) parent (by omega) (by omega) hbelow
        (hss'.set (by rw [hlimit]; simp only [List.length_nil]; omega) (by simp)) (by rw [length_setEntries]; exact hgrown)
        hparent hclear (by rw [hrefs', List.map_append]; exact hjoin.replace hpjoin) hweight
      refine ⟨ss', object :: objects, ?_, hok, hlen', hjoin'⟩
      simp only [push, checks_ok, hsplit.entries, if_neg hlt, Prod.exists]
      exact ⟨by omega, hterminal, parent, object, hseal, ss', objects, hpush, rfl, rfl⟩

/-- Placing an entry that continues the history succeeds while the counter has room. -/
theorem place_total {header : HeadHeader} (hs : Seals config header.generation header.writerEpoch)
    (hleaf : config.leafLimit.toNat ≤ maxLeafEntries) (hlimit : header.indexLimit = config.indexLimit)
    (htwo : 2 ≤ config.indexLimit.toNat) (hmax : config.indexLimit.toNat ≤ maxIndexEntries) {r : RootRange}
    {active : List LeafEntry} {ss : List OpenIndexSection} (hne : active ≠ [])
    (hlen : active.length ≤ config.leafLimit.toNat) (hok : ∀ e ∈ active, LeafEntryOk e)
    (hepoch : ∀ e ∈ active, e.writerEpoch ≤ header.writerEpoch)
    (hepochs : active.IsChain (fun a b => a.writerEpoch ≤ b.writerEpoch)) (hss : SectionsOk header ss)
    (hlevels : ss.length ≤ maxOpenIndexLevel)
    (hjoin : Joins ((sectionRefs ss).map IndexEntry.root ++ active.map LeafEntry.root) r)
    (hroom : weight config.indexLimit.toNat ss + 1 < 2 ^ 64) :
    ∃ active' ss' objects, place config header active ss = .ok (active', ss', objects) ∧
      (active' = [] ∨ active' = active) ∧ active'.length < config.leafLimit.toNat ∧ SectionsOk header ss' ∧
      ss'.length ≤ maxOpenIndexLevel ∧ Joins ((sectionRefs ss').map IndexEntry.root ++ active'.map LeafEntry.root) r := by
  have hcount : (UInt32.ofNat active.length).toNat = active.length := toNat_count (Nat.le_trans hlen hleaf)
  by_cases hfull : UInt32.ofNat active.length = config.leafLimit
  · have hchain : active.IsChain LeafNext := by
      have hroots := (List.isChain_map _).1 (List.isChain_append.1 hjoin.chain).2.1
      rw [List.isChain_iff_getElem] at hroots hepochs ⊢
      intro i hi
      exact ⟨(hroots i hi).room, (hroots i hi).base, (hroots i hi).timestamps, hepochs i hi⟩
    obtain ⟨ref, object, hseal, href, hrjoin⟩ := sealLeaf_total hs hne (Nat.le_trans hlen hleaf) hok hchain hepoch
    obtain ⟨ss', objects, hpush, hok', hlen', hjoin'⟩ := push_total hs hlimit htwo hmax pushFuel
      (show maxOpenIndexLevel < 1 + pushFuel by simp only [pushFuel]; omega) (by decide) (by decide) hss hlevels href (fun j _ hj => absurd hj (by omega))
      (by rw [List.map_append]; exact hjoin.replace hrjoin) (by simpa using hroom)
    refine ⟨[], ss', object :: objects, ?_, .inl rfl, ?_, hok', hlen', by simpa using hjoin'⟩
    · unfold place
      rw [if_pos hfull]
      simp only [bind_ok, pure_ok, Prod.exists]
      exact ⟨ref, object, hseal, ss', objects, hpush, rfl⟩
    · have := List.length_pos_of_ne_nil hne
      simp only [List.length_nil]
      omega
  · refine ⟨active, ss, [], ?_, .inr rfl, ?_, hss, hlevels, hjoin⟩
    · unfold place
      rw [if_neg hfull]
      rfl
    · have hne' : active.length ≠ config.leafLimit.toNat := fun h =>
        hfull (UInt32.toNat_inj.1 (hcount.trans h))
      omega

/-! ## Legal segments -/

/-- A segment that may follow a head. -/
structure LegalNext (config : Config) (head : Head) (segment : SegmentRef) : Prop where
  valid : segment.validate = .ok ()
  streamID : segment.streamID = config.streamID
  partition : segment.partition = config.partition
  uri : segment.uri = config.segmentURI (Config.entryOf segment)
  epoch : segment.writerEpoch = head.header.writerEpoch
  tag : segment.writerTag = head.header.writerID
  base : segment.baseLSN = head.header.nextLSN
  maxLSN : segment.lastLSN ≤ maxRecordLSN
  times : head.hasLastSegment = true → head.lastSegment.maxTimestampMS ≤ segment.minTimestampMS

variable {pages : Pages} {head : Head} {segment : SegmentRef} {l : List LeafEntry}

omit [Hashes] in
/-- What the public validation of a segment says about its entry. -/
theorem entryOf_ok (h : segment.validate = .ok ()) (htag : isZero16 segment.writerTag = false) :
    LeafEntryOk (entryOf segment) := by
  simp only [SegmentRef.validate, checks_ok, not_or, not_not, gt_iff_lt, UInt64.not_lt, Int64.not_lt, ne_eq] at h
  obtain ⟨_, hepoch, huuid, hrange, hmax, ⟨hrec, hcount⟩, hblocks, hsize, hindex, htimes, hcodec, hhash⟩ := h
  refine ⟨hrange, hmax, ?_, hrec, hcount, htimes, hblocks, hsize, hindex, hcodec, hhash, hepoch, ?_, htag⟩
  · -- the span is the record count, which has 32 bits
    change segment.lastLSN - segment.baseLSN + 1 ≤ maxUint32
    rw [← hcount, le_iff_toNat_le, UInt32.toNat_toUInt64]
    exact Nat.le_of_lt_succ segment.recordCount.toNat_lt
  · exact decide_eq_false huuid

theorem LegalNext.epoch_ne (h : LegalNext config head segment) : head.header.writerEpoch ≠ 0 := by
  have hv := h.valid
  simp only [SegmentRef.validate, checks_ok] at hv
  rw [← h.epoch]
  exact hv.2.1

theorem LegalNext.entryOk (h : LegalNext config head segment) (hv : HeadOk head) : LeafEntryOk (entryOf segment) := by
  refine entryOf_ok h.valid ?_
  rw [h.tag, ← hv.header.writer]
  exact decide_eq_false h.epoch_ne

theorem LegalNext.checked (h : LegalNext config head segment) (hi : Inv config pages head l)
    (hgen : head.header.generation ≠ maxUint64) : AppendChecked config head segment (entryOf segment) := by
  have htag := (h.entryOk hi.valid).tag
  refine ⟨hi.identity, hgen, ?_, h.epoch_ne, h.epoch, h.tag, h.base, h.times⟩
  simp only [Config.leafEntry, checks_ok, not_or, not_not, ne_eq]
  exact ⟨h.valid, ⟨h.streamID, h.partition⟩, of_decide_eq_false htag, h.uri, trivial⟩

/-! ## The next head -/

/-- The last root ends with the last segment. -/
theorem Inv.lastRoot (hi : Inv config pages head l) (hx : x ∈ head.rootRanges.getLast?) :
    x.seqHi = head.lastSegment.lastLSN ∧ x.maxTS = head.lastSegment.maxTimestampMS ∧ LastOk head ∧ RootsOk head := by
  have hne : head.rootRanges ≠ [] := by
    intro h
    simp [h] at hx
  rcases hi.valid.history with ⟨_, he⟩ | ⟨_, hlast, ⟨hnil, _⟩ | ⟨_, hroots⟩⟩
  · exact absurd he.roots hne
  · exact absurd hnil hne
  · have hxD : head.rootRanges.getLastD .zero = x := by rw [List.getLastD_eq_getLast?, Option.mem_def.1 hx]; rfl
    obtain ⟨ls, hls, rfl⟩ := flat_ranges hi.valid hi.contents
    obtain ⟨r, rs, hrs⟩ := List.exists_cons_of_ne_nil hne
    have hcov := covers_ranges (hrs ▸ hroots.chain) (hrs ▸ hls)
    have hend := List.getLast?_eq_some_getLast hcov.nonempty
    rw [← hrs, hxD] at hcov
    refine ⟨hxD ▸ hroots.last, ?_, hlast, hroots⟩
    rw [← hcov.times.last _ hend, hi.last _ hend]

/-- With one more entry the roots still join. -/
theorem LegalNext.joins (h : LegalNext config head segment) (hi : Inv config pages head l)
    (hcount : head.header.segmentCount.toNat < 2 ^ 63) : ∃ t, Joins (head.rootRanges ++ [(entryOf segment).root])
      ⟨(appendHeader head (entryOf segment)).oldestLSN, segment.lastLSN, t, segment.maxTimestampMS,
        head.header.reachableSegmentCount + 1⟩ := by
  -- without roots the entry is the whole history
  have halone : head.rootRanges = [] → head.header.reachableSegmentCount = 0 →
      (head.hasLastSegment = true → head.header.oldestLSN = head.header.nextLSN) →
      ∃ t, Joins (head.rootRanges ++ [(entryOf segment).root])
        ⟨(appendHeader head (entryOf segment)).oldestLSN, segment.lastLSN, t, segment.maxTimestampMS,
          head.header.reachableSegmentCount + 1⟩ := by
    intro hnil hzero hold
    have holdest : (appendHeader head (entryOf segment)).oldestLSN = segment.baseLSN := by
      simp only [appendHeader]
      split
      · rename_i hl
        rw [hold hl, h.base]
      · rfl
    refine ⟨segment.minTimestampMS, ?_⟩
    rw [hnil, holdest, hzero]
    exact Joins.single _
  rcases hi.valid.history with ⟨hno, he⟩ | ⟨hl, _, ⟨hnil, hret⟩ | ⟨hne, hroots⟩⟩
  · exact halone he.roots he.reachable fun hl => absurd (hno.symm.trans hl) (by simp)
  · exact halone hnil hret.reachable fun _ => hret.oldest
  · obtain ⟨f, hf⟩ : ∃ x, head.rootRanges.head? = some x := ⟨_, List.head?_eq_some_head hne⟩
    obtain ⟨x, hx⟩ : ∃ x, head.rootRanges.getLast? = some x := ⟨_, List.getLast?_eq_some_getLast hne⟩
    obtain ⟨hhi, hts, hlast, _⟩ := hi.lastRoot hx
    have hreach := le_iff_toNat_le.1 hi.valid.header.reachable
    have holdest : (appendHeader head (entryOf segment)).oldestLSN = head.header.oldestLSN := by
      simp [appendHeader, hl]
    have hjoin : Joins head.rootRanges ⟨head.header.oldestLSN, head.lastSegment.lastLSN, f.minTS,
        head.lastSegment.maxTimestampMS, head.header.reachableSegmentCount⟩ :=
      ⟨⟨f, hf, hroots.first f hf, rfl⟩, ⟨x, hx, hhi, hts⟩, hroots.chain, hroots.reachable⟩
    refine ⟨f.minTS, hjoin.snoc (fun y hy => ?_) holdest rfl rfl rfl ?_⟩
    · obtain rfl : x = y := by simpa [hx] using hy
      refine ⟨hhi ▸ hlast.room, ?_, hts ▸ h.times hl⟩
      change segment.baseLSN = _
      rw [h.base, hhi, hlast.next]
    · change (head.header.reachableSegmentCount + 1).toNat = head.header.reachableSegmentCount.toNat + 1
      rw [UInt64.toNat_add]
      simp only [reduceToNat]
      omega

omit [Hashes] in
theorem toNat_succ {a : UInt64} (h : a.toNat + 1 < 2 ^ 64) : (a + 1).toNat = a.toNat + 1 := by
  rw [UInt64.toNat_add]
  simp only [reduceToNat]
  omega

omit [Hashes] in
/-- Setting a flag adds no other bits. -/
theorem or_and_not {a b : UInt32} (h : a &&& ~~~b = 0) : (a ||| b) &&& ~~~b = 0 := by
  rw [← UInt32.toBitVec_inj] at h ⊢
  simp only [UInt32.toBitVec_and, UInt32.toBitVec_or, UInt32.toBitVec_not] at h ⊢
  ext i hi
  have hbit := congrArg (fun x => x[i]) h
  simp at hbit ⊢
  grind

/-- The head `Append` builds once the entry is placed. -/
def appended (head : Head) (entry : LeafEntry) (active : List LeafEntry) (ss : List OpenIndexSection) : Head where
  header := { appendHeader head entry with
    activeCount := UInt32.ofNat active.length
    levelCount := UInt32.ofNat ss.length }
  lastSegment := entry
  active := active
  sections := ss

/-- What an append has to add up before the head is built. -/
structure Counts (head : Head) (segment : SegmentRef) : Prop where
  segments : (head.header.segmentCount + 1).toNat = head.header.segmentCount.toNat + 1
  reachable : (head.header.reachableSegmentCount + 1).toNat = head.header.reachableSegmentCount.toNat + 1
  generation : (head.header.generation + 1).toNat = head.header.generation.toNat + 1
  next : (segment.lastLSN + 1).toNat = segment.lastLSN.toNat + 1
  grows : head.header.nextLSN.toNat ≤ segment.lastLSN.toNat

theorem LegalNext.counts (h : LegalNext config head segment) (hv : HeadOk head)
    (hgen : head.header.generation ≠ maxUint64) (hcount : head.header.segmentCount.toNat < 2 ^ 63) :
    Counts head segment := by
  have hreach := le_iff_toNat_le.1 hv.header.reachable
  have hrange := le_iff_toNat_le.1 (h.entryOk hv).range
  have hne : head.header.generation.toNat ≠ 18446744073709551615 := fun hc => hgen (UInt64.toNat_inj.1 hc)
  have hlt := head.header.generation.toNat_lt
  refine ⟨toNat_succ (by omega), toNat_succ (by omega), toNat_succ (by omega), toNat_succ_of_room h.maxLSN, ?_⟩
  rw [← h.base]
  exact hrange

omit [Hashes] in
theorem appended_headerOk (hv : HeadOk head) (hc : Counts head segment) (hbase : segment.baseLSN = head.header.nextLSN)
    {active : List LeafEntry} (hactive : active.length < head.header.leafLimit.toNat)
    (hlevels : ss.length ≤ maxOpenIndexLevel) : HeaderOk (appended head (entryOf segment) active ss) := by
  have hh := hv.header
  have hnext : head.header.nextLSN ≤ segment.lastLSN + 1 := by
    rw [le_iff_toNat_le, hc.next]
    have := hc.grows
    omega
  refine ⟨?_, hh.hashAlgo, hh.layout, hh.leafLimit_pos, hh.leafLimit, hh.indexLimit_two, hh.indexLimit, hactive, rfl,
    hlevels, rfl, ?_, ?_, le_trans hh.retention hnext, hh.retentionVersion, hh.writer, ?_, hh.streamKey,
    hh.dataRootKey⟩
  · simp only [appended, appendHeader]
    split
    · exact hh.flags
    · exact or_and_not hh.flags
  · exact le_iff_toNat_le.2 (Nat.le_of_lt_succ (segment.lastLSN + 1).toNat_lt)
  · simp only [appended, appendHeader]
    split
    · exact le_trans hh.oldest hnext
    · exact (show segment.baseLSN ≤ _ from hbase ▸ hnext)
  · have := le_iff_toNat_le.1 hh.reachable
    change head.header.reachableSegmentCount + 1 ≤ head.header.segmentCount + 1
    rw [le_iff_toNat_le, hc.reachable, hc.segments]
    omega

omit [Hashes] in
theorem rootRanges_eq (head : Head) :
    head.rootRanges = (sectionRefs head.sections).map IndexEntry.root ++ head.active.map LeafEntry.root := by
  simp [Head.rootRanges, sectionRefs, List.map_flatMap]

omit [Hashes] in
/-- A joined history that ends with the entry, and leaves room after it, is valid. -/
theorem appended_historyOk (hc : Counts head segment) (hentry : LeafEntryOk (entryOf segment))
    (hepoch : segment.writerEpoch = head.header.writerEpoch) (hroom : segment.lastLSN ≠ maxRecordLSN)
    {active : List LeafEntry} {t : Int64} (hactive : active = [] ∨ active = head.active ++ [entryOf segment])
    (hjoin : Joins ((sectionRefs ss).map IndexEntry.root ++ active.map LeafEntry.root)
      ⟨(appendHeader head (entryOf segment)).oldestLSN, segment.lastLSN, t, segment.maxTimestampMS,
        head.header.reachableSegmentCount + 1⟩) : HistoryOk (appended head (entryOf segment) active ss) := by
  have hroots : (appended head (entryOf segment) active ss).rootRanges =
      (sectionRefs ss).map IndexEntry.root ++ active.map LeafEntry.root := rootRanges_eq _
  rw [← hroots] at hjoin
  have hflag : (appended head (entryOf segment) active ss).hasLastSegment = true := by
    rw [Head.hasLastSegment, decide_eq_true_eq]
    exact appendHeader_flag head (entryOf segment)
  obtain ⟨f, hf, hflo, _⟩ := hjoin.first
  obtain ⟨x, hx, hxhi, _⟩ := hjoin.last
  refine .inr ⟨hflag, ⟨hentry, ?_, ?_, hroom, rfl⟩, .inr ⟨?_, ⟨?_, fun hne => ?_, fun r hr => ?_, hjoin.chain, ?_⟩⟩⟩
  · change segment.writerEpoch ≤ head.header.writerEpoch
    rw [hepoch]
    exact le_refl _
  · intro h0
    have := congrArg UInt64.toNat h0
    change (head.header.segmentCount + 1).toNat = 0 at this
    rw [hc.segments] at this
    omega
  · intro hnil
    simp [hnil] at hf
  · rw [List.getLastD_eq_getLast?, Option.mem_def.1 hx]
    exact hxhi
  · rcases hactive with rfl | rfl
    · exact absurd rfl hne
    · change (head.active ++ [entryOf segment]).getLastD _ = entryOf segment
      rw [List.getLastD_eq_getLast?, List.getLast?_append]
      rfl
  · obtain rfl : f = r := by simpa using hf.symm.trans hr
    exact hflo
  · exact hjoin.count

/-- A legal segment that leaves room for another one is accepted. -/
theorem LegalNext.append_total (h : LegalNext config head segment) (hi : Inv config pages head l)
    (hids : ∀ body, isZero16 (pageID body) = false) (hgen : head.header.generation ≠ maxUint64)
    (hcount : head.header.segmentCount.toNat < 2 ^ 63)
    (hweight : headWeight config head ≤ head.header.segmentCount.toNat) (hroom : segment.lastLSN ≠ maxRecordLSN) :
    ∃ m, append config head segment = .ok m := by
  have hv := hi.valid
  have hentry := h.entryOk hv
  have hc := h.counts hv hgen hcount
  obtain ⟨⟨_, hkey, _⟩, ⟨hL, hI, halgo⟩, _⟩ := validateConfigHead_ok.1 hi.identity
  have hseals : Seals config (head.header.generation + 1) head.header.writerEpoch :=
    ⟨hids, halgo ▸ hv.header.hashAlgo, hkey ▸ hv.header.streamKey,
      fun h0 => by have := congrArg UInt64.toNat h0; rw [hc.generation] at this; simp at this, h.epoch_ne⟩
  have hsections : SectionsOk (appendHeader head (entryOf segment)) head.sections := by
    intro j s hs
    have hsec := hv.sections j s hs
    refine ⟨hsec.level, hsec.limit, fun e he => ?_⟩
    have hchild := hsec.entries e he
    refine ⟨hchild.entry, hchild.level, le_trans hchild.generation (le_iff_toNat_le.2 ?_)⟩
    change _ ≤ (head.header.generation + 1).toNat
    rw [hc.generation]
    omega
  -- every active entry may be sealed with the new one
  have hentries : ∀ e ∈ head.active ++ [entryOf segment],
      LeafEntryOk e ∧ e.writerEpoch ≤ head.header.writerEpoch := by
    intro e he
    rcases mem_concat.1 he with he | rfl
    · exact hv.active e he
    · exact ⟨hentry, h.epoch ▸ le_refl _⟩
  have hepochs : (head.active ++ [entryOf segment]).IsChain (fun a b => a.writerEpoch ≤ b.writerEpoch) := by
    refine List.isChain_append.2 ⟨hv.activeEpochs, by simp, fun x hx y hy => ?_⟩
    obtain rfl : entryOf segment = y := by simpa using hy
    change _ ≤ segment.writerEpoch
    rw [h.epoch]
    exact (hv.active x (List.mem_of_getLast? hx)).2
  obtain ⟨t, hjoin⟩ := h.joins hi hcount
  rw [rootRanges_eq, List.append_assoc, ← List.map_singleton, ← List.map_append] at hjoin
  have hLpos := hL ▸ hv.header.active
  have hsmall : weight config.indexLimit.toNat head.sections + 1 < 2 ^ 64 := by
    have hpos : 1 ≤ config.leafLimit.toNat := by omega
    have := Nat.mul_le_mul_right (weight config.indexLimit.toNat head.sections) hpos
    simp only [headWeight] at hweight
    omega
  obtain ⟨active, ss, objects, hplace, hactive, hlen, hss, hlevels, hjoin'⟩ :=
    @place_total _ config (appendHeader head (entryOf segment)) hseals (hL ▸ hv.header.leafLimit) hI
      (hI ▸ UInt32.le_iff_toNat_le.1 hv.header.indexLimit_two) (hI ▸ hv.header.indexLimit) _ _ _ (by simp)
      (by rw [List.length_append]; exact hLpos) (fun e he => (hentries e he).1) (fun e he => (hentries e he).2) hepochs
      hsections hv.header.levels hjoin hsmall
  have hnext : HeadOk (appended head (entryOf segment) active ss) := by
    refine ⟨appended_headerOk hv hc h.base (hL ▸ hlen) hlevels, fun j s hs => ?_, ?_, ?_,
      appended_historyOk hc hentry h.epoch hroom hactive hjoin'⟩
    · have hsec := hss j s hs
      exact ⟨hsec.level, hsec.limit, hsec.entries⟩
    · rcases hactive with rfl | rfl
      · simp [appended]
      · exact hentries
    · rcases hactive with rfl | rfl
      · exact .nil
      · exact hepochs
  obtain ⟨body, hbody⟩ := marshalHead_total hnext
  refine ⟨⟨appended head (entryOf segment) active ss, body, objects⟩, ?_⟩
  simp only [append, checks_ok, checkAppend_ok, Prod.exists]
  exact ⟨_, h.checked hi hgen, active, ss, objects, hplace, body, hbody, rfl⟩

/-- Validation wants room after the last segment, so the very last LSN is never accepted. -/
theorem append_leaves_room {m : Mutation} (h : append config head segment = .ok m) :
    segment.lastLSN ≠ maxRecordLSN := by
  obtain ⟨active, ss, _, _, hhead, hm⟩ := append_ok h
  have hflag : m.head.hasLastSegment = true := by
    rw [hhead, Head.hasLastSegment, decide_eq_true_eq]
    exact appendHeader_flag head (entryOf segment)
  rcases (marshalHead_valid hm).history with ⟨hno, _⟩ | ⟨_, hlast, _⟩
  · exact absurd (hno.symm.trans hflag) (by simp)
  · have := hlast.room
    rw [hhead] at this
    exact this

/-- A reachable head with room in its counters accepts a legal next segment exactly when the segment leaves an
LSN after it. -/
theorem append_accepts_iff (h : Reachable config pages head) (hids : ∀ body, isZero16 (pageID body) = false)
    (hcount : head.header.segmentCount.toNat < 2 ^ 63) (hgen : head.header.generation < maxUint64)
    (hlegal : LegalNext config head segment) :
    (∃ m, append config head segment = .ok m) ↔ segment.lastLSN ≠ maxRecordLSN := by
  obtain ⟨l, hi⟩ := h.inv
  constructor
  · rintro ⟨m, hm⟩
    exact append_leaves_room hm
  · have hne : head.header.generation ≠ maxUint64 := fun heq => UInt64.lt_irrefl _ (heq ▸ hgen)
    exact hlegal.append_total hi hids hne hcount h.weight_le

end

namespace Sample

/-- A partition that starts three LSNs before the end of the LSN space. -/
def lastCreated : Head × Bytes := letI := hashes; value (emptyHead config 0, []) (newHead config 18446744073709551612)
def lastTaken : Mutation := letI := hashes; value noMutation (takeover config lastCreated.1 id16)

section
set_option maxRecDepth 20000

theorem reachable_lastTaken : letI := hashes; Reachable config (pagesOf []) lastTaken.head := by
  let _ := hashes
  have hops : isOk (newHead config 18446744073709551612) ∧ isOk (takeover config lastCreated.1 id16) := by
    decide +kernel
  have hnew : newHead config 18446744073709551612 = .ok lastCreated := eq_ok _ hops.1
  have htake : takeover config lastCreated.1 id16 = .ok lastTaken := eq_ok _ hops.2
  exact .takeover (.new hnew) htake (fun _ _ h => h) (by rw [(takeover_ok htake).2.1]; simp [Stored])

theorem reachable_taken : letI := hashes; Reachable config (pagesOf []) taken.head := by
  let _ := hashes
  exact .takeover (.new created_ok) taken_ok (fun _ _ h => h) (by rw [(takeover_ok taken_ok).2.1]; simp [Stored])

theorem pageID_ne (body : Bytes) : letI := hashes; isZero16 (pageID body) = false := by
  let _ := hashes
  have hconst : pageID body = pageID [] := rfl
  rw [hconst]
  decide +kernel

/-- The checks of `LegalNext` as one evaluation, for a head without a last segment. -/
def legal (head : Head) (segment : SegmentRef) : Bool :=
  letI := hashes
  isOk segment.validate ∧ segment.streamID = config.streamID ∧ segment.partition = config.partition ∧
    segment.uri = config.segmentURI (Config.entryOf segment) ∧ segment.writerEpoch = head.header.writerEpoch ∧
    segment.writerTag = head.header.writerID ∧ segment.baseLSN = head.header.nextLSN ∧
    segment.lastLSN ≤ maxRecordLSN ∧ head.hasLastSegment = false

theorem legalNext_of_legal {head : Head} {segment : SegmentRef} (h : legal head segment = true) :
    letI := hashes; LegalNext config head segment := by
  let _ := hashes
  obtain ⟨hvalid, hstream, hpart, huri, hepoch, htag, hbase, hmax, hlast⟩ := of_decide_eq_true h
  exact ⟨eq_ok () hvalid, hstream, hpart, huri, hepoch, htag, hbase, hmax, fun h => absurd h (by simp [hlast])⟩

theorem legal_ten : letI := hashes; LegalNext config taken.head (segment 10) :=
  legalNext_of_legal (by decide +kernel)

theorem legal_last : letI := hashes; LegalNext config lastTaken.head (segment 18446744073709551612) :=
  legalNext_of_legal (by decide +kernel)

end

end Sample

/-- An ordinary segment is accepted. -/
theorem append_accepts_ten : letI := Sample.hashes
    ∃ m, append Sample.config Sample.taken.head (Sample.segment 10) = .ok m := by
  let _ := Sample.hashes
  have hcounts : Sample.taken.head.header.segmentCount.toNat < 2 ^ 63 ∧
      Sample.taken.head.header.generation < maxUint64 := by decide +kernel
  exact (append_accepts_iff Sample.reachable_taken Sample.pageID_ne hcounts.1 hcounts.2 Sample.legal_ten).2 (by decide)

/-- The segment that ends at the last record LSN is legal and is rejected. -/
theorem append_rejects_last : letI := Sample.hashes
    Reachable Sample.config (Sample.pagesOf []) Sample.lastTaken.head ∧
      Sample.lastTaken.head.header.segmentCount.toNat < 2 ^ 63 ∧
      Sample.lastTaken.head.header.generation < maxUint64 ∧
      LegalNext Sample.config Sample.lastTaken.head (Sample.segment 18446744073709551612) ∧
      ∀ m, append Sample.config Sample.lastTaken.head (Sample.segment 18446744073709551612) ≠ .ok m := by
  let _ := Sample.hashes
  have hcounts : Sample.lastTaken.head.header.segmentCount.toNat < 2 ^ 63 ∧
      Sample.lastTaken.head.header.generation < maxUint64 := by decide +kernel
  refine ⟨Sample.reachable_lastTaken, hcounts.1, hcounts.2, Sample.legal_last, fun m hm => ?_⟩
  exact append_leaves_room hm rfl

end ObjLog.Catengine
