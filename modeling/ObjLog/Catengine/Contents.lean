import ObjLog.Lib.Tiling
import ObjLog.Catformat.RoundTrip
import ObjLog.Catengine.Reader
/-!
# What a head contains

`leaves` reads the whole subtree below a reference and `flat` the whole history
of a head, through the loads a reader makes. Page validation makes the entries
below a reference tile its bounds, in time and epoch order.
-/

namespace ObjLog.Catengine

open Lib Catformat Pmeta Blobstore

variable [Hashes]

variable {body : Bytes} {config : Config}

variable {pages : Pages} {page : LeafPage} {ref : IndexEntry} {maxWriterEpoch : UInt64} {l : List LeafEntry}
   {depth : Nat}

abbrev Pages := String → Option Bytes

/-- The leaf entries below a reference, left to right. -/
def leaves (config : Config) (pages : Pages) (depth : Nat) (ref : IndexEntry) (maxWriterEpoch : UInt64) :
    Except Err (List LeafEntry) :=
  if ref.level = 0 then (·.entries) <$> eval pages (loadLeaf config ref maxWriterEpoch)
  else match depth with
    | 0 => throw (.plain "unreachable: child level not below its parent")
    | depth + 1 => do
      let page ← eval pages (loadIndex config ref maxWriterEpoch)
      List.flatten <$> page.entries.mapM fun e => leaves config pages depth e page.header.writerEpoch

def HeadRoot.leaves (config : Config) (pages : Pages) (maxWriterEpoch : UInt64) : HeadRoot → Except Err (List LeafEntry)
  | .ref r => Catengine.leaves config pages r.level.toNat r maxWriterEpoch
  | .leaf e => .ok [e]

/-- The retained history of a head, oldest first. -/
def flat (config : Config) (pages : Pages) (head : Head) : Except Err (List LeafEntry) :=
  List.flatten <$> (headRoots head).mapM (HeadRoot.leaves config pages head.header.writerEpoch)

/-! ## Loaded pages -/

/-- What a successful load of a leaf says about the reference. -/
structure LeafLoaded (config : Config) (ref : IndexEntry) (maxWriterEpoch : UInt64) (page : LeafPage) : Prop where
  valid : LeafPageOk page
  epoch : page.header.writerEpoch ≤ maxWriterEpoch
  isRef : matchesPageRef page.header ref config = true

structure IndexLoaded (config : Config) (ref : IndexEntry) (maxWriterEpoch : UInt64) (page : IndexPage) : Prop where
  valid : IndexPageOk page
  epoch : page.header.writerEpoch ≤ maxWriterEpoch
  isRef : matchesPageRef page.header ref config = true

omit [Hashes] in
theorem eval_getPage_ok {kind key : String} : eval pages (getPage kind key) = .ok body ↔ pages key = some body := by
  simp only [getPage, reads_ok, eval_adapt, checks_ok, eval_get_ok]
  constructor
  · rintro ⟨object, ⟨h, _⟩, rfl⟩
    exact h
  · intro h
    exact ⟨⟨body, 1⟩, ⟨h, rfl⟩, rfl⟩

theorem parseLeafPage_valid {id : Arr 16} (h : parseLeafPage body = .ok (page, id)) : LeafPageOk page := by
  simp only [parseLeafPage, checks_ok] at h
  obtain ⟨_, _, _, _, hv, rfl, _⟩ := h
  exact (validateLeafPage_ok _).1 hv

theorem parseIndexPage_valid {page : IndexPage} {id : Arr 16}
    (h : parseIndexPage body = .ok (page, id)) : IndexPageOk page := by
  simp only [parseIndexPage, checks_ok] at h
  obtain ⟨_, _, _, _, hv, rfl, _⟩ := h
  exact (validateIndexPage_ok _).1 hv

/-- A leaf loads when its body is stored, parses to the referenced id and matches the reference. -/
theorem loadLeaf_ok : eval pages (loadLeaf config ref maxWriterEpoch) = .ok page ↔
      ∃ body, pages (config.leafPagePath ref) = some body ∧ parseLeafPage body = .ok (page, ref.pageID) ∧
        page.header.writerEpoch ≤ maxWriterEpoch ∧ matchesPageRef page.header ref config = true := by
  simp only [loadLeaf, reads_ok, checks_ok, eval_getPage_ok, checkLeaf, not_or, not_not, gt_iff_lt, UInt64.not_lt,
    Prod.exists, ne_eq]
  constructor
  · rintro ⟨body, hb, p, id, hp, ⟨rfl, he, hm⟩, rfl⟩
    exact ⟨body, hb, hp, he, hm⟩
  · rintro ⟨body, hb, hp, he, hm⟩
    exact ⟨body, hb, page, ref.pageID, hp, ⟨rfl, he, hm⟩, rfl⟩

theorem loadIndex_ok {page : IndexPage} : eval pages (loadIndex config ref maxWriterEpoch) = .ok page ↔
      ∃ body, pages (config.indexPagePath ref) = some body ∧ parseIndexPage body = .ok (page, ref.pageID) ∧
        page.header.writerEpoch ≤ maxWriterEpoch ∧ matchesPageRef page.header ref config = true := by
  simp only [loadIndex, reads_ok, checks_ok, eval_getPage_ok, checkIndex, not_or, not_not, gt_iff_lt, UInt64.not_lt,
    Prod.exists, ne_eq]
  constructor
  · rintro ⟨body, hb, p, id, hp, ⟨rfl, he, hm⟩, rfl⟩
    exact ⟨body, hb, hp, he, hm⟩
  · rintro ⟨body, hb, hp, he, hm⟩
    exact ⟨body, hb, page, ref.pageID, hp, ⟨rfl, he, hm⟩, rfl⟩

theorem loadLeaf_loaded (h : eval pages (loadLeaf config ref maxWriterEpoch) = .ok page) :
    LeafLoaded config ref maxWriterEpoch page := by
  obtain ⟨body, _, hp, he, hm⟩ := loadLeaf_ok.1 h
  exact ⟨parseLeafPage_valid hp, he, hm⟩

theorem loadIndex_loaded {page : IndexPage} (h : eval pages (loadIndex config ref maxWriterEpoch) = .ok page) :
    IndexLoaded config ref maxWriterEpoch page := by
  obtain ⟨body, _, hp, he, hm⟩ := loadIndex_ok.1 h
  exact ⟨parseIndexPage_valid hp, he, hm⟩

/-! ## What a reference covers -/

/-- Time order, from the first entry's minimum to the last entry's maximum. -/
structure Timed (first last : Int64) (l : List LeafEntry) : Prop where
  first : ∀ e ∈ l.head?, e.minTimestampMS = first
  last : ∀ e ∈ l.getLast?, e.maxTimestampMS = last
  chain : l.IsChain fun a b => a.maxTimestampMS ≤ b.minTimestampMS

abbrev LsnTiles (a b : Nat) (l : List LeafEntry) : Prop :=
  Tiles (fun e : LeafEntry => e.baseLSN.toNat) (fun e => e.lastLSN.toNat) a b l

/-- The entries `l` are what a page with these bounds and this count stands for. -/
structure Covers (seqLo seqHi : UInt64) (minTS maxTS : Int64) (count : Nat) (l : List LeafEntry) : Prop where
  nonempty : l ≠ []
  entries : ∀ e ∈ l, LeafEntryOk e
  tiles : LsnTiles seqLo.toNat (seqHi.toNat + 1) l
  times : Timed minTS maxTS l
  count : l.length = count

omit [Hashes] in
theorem toNat_succ_of_room {a : UInt64} (h : a ≤ maxRecordLSN) : (a + 1).toNat = a.toNat + 1 := by
  rw [UInt64.le_iff_toNat_le] at h
  simp only [maxRecordLSN, UInt64.reduceToNat] at h
  rw [UInt64.toNat_add]
  simp only [UInt64.reduceToNat]
  omega

omit [Hashes] in
/-- Neighbours that continue each other tile. -/
theorem tiles_of_isChain {α : Type} {lo hi : α → UInt64} {x : α} {xs : List α} (d : α)
    (hok : ∀ y ∈ x :: xs, lo y ≤ hi y ∧ hi y ≤ maxRecordLSN) (hchain : (x :: xs).IsChain fun a b => lo b = hi a + 1) :
    Tiles (fun y => (lo y).toNat) (fun y => (hi y).toNat) (lo x).toNat ((hi ((x :: xs).getLastD d)).toNat + 1)
      (x :: xs) := by
  induction xs generalizing x with
  | nil => exact ⟨rfl, UInt64.le_iff_toNat_le.1 (hok x List.mem_cons_self).1, rfl⟩
  | cons y xs ih =>
    obtain ⟨hnext, hrest⟩ := List.isChain_cons_cons.1 hchain
    have hx := hok x List.mem_cons_self
    have htail := ih (fun z hz => hok z (List.mem_cons_of_mem _ hz)) hrest
    rw [hnext, toNat_succ_of_room hx.2] at htail
    refine ⟨rfl, UInt64.le_iff_toNat_le.1 hx.1, ?_⟩
    simpa using htail

omit [Hashes] in
/-- Adjoining covers join when the second starts where the first ends. -/
theorem Covers.append {lo mid mid' hi : UInt64} {t1 t2 t3 t4 : Int64} {m n : Nat} {xs ys : List LeafEntry}
    (hx : Covers lo mid t1 t2 m xs) (hy : Covers mid' hi t3 t4 n ys) (hmid : mid'.toNat = mid.toNat + 1)
    (ht : t2 ≤ t3) : Covers lo hi t1 t4 (m + n) (xs ++ ys) where
  nonempty := by simp [hx.nonempty]
  entries e he := (List.mem_append.1 he).elim (hx.entries e) (hy.entries e)
  tiles := Tiles.append_iff.2 ⟨_, hx.tiles, hmid ▸ hy.tiles⟩
  times :=
    { first := by rw [List.head?_append_of_ne_nil _ hx.nonempty]; exact hx.times.first
      last := by rw [List.getLast?_append_of_ne_nil _ hy.nonempty]; exact hy.times.last
      chain := by
        refine List.isChain_append.2 ⟨hx.times.chain, hy.times.chain, fun a ha b hb => ?_⟩
        rw [hx.times.last a ha, hy.times.first b hb]
        exact ht }
  count := by rw [List.length_append, hx.count, hy.count]

/-- What a reference says about the entries below it. -/
abbrev RefCovers (ref : IndexEntry) (l : List LeafEntry) : Prop :=
  Covers ref.seqLo ref.seqHi ref.minTimestampMS ref.maxTimestampMS ref.segmentCount.toNat l

omit [Hashes] in
theorem leafPage_covers (h : LeafPageOk page) :
    Covers page.header.seqLo page.header.seqHi page.header.minTimestampMS page.header.maxTimestampMS
      page.header.segmentCount.toNat page.entries := by
  obtain ⟨e, es, hes⟩ := List.exists_cons_of_ne_nil h.nonempty
  have hlen : page.entries.length < 2 ^ 64 := by
    have := h.limit
    simp only [maxLeafEntries] at this
    omega
  refine ⟨h.nonempty, h.entries, ?_, ⟨?_, ?_, h.chain.imp fun _ _ hn => hn.timestamps⟩, ?_⟩
  · rw [h.seqLo, h.seqHi, hes]
    have hchain : (e :: es).IsChain LeafNext := hes ▸ h.chain
    exact tiles_of_isChain .zero (fun x hx => ⟨(h.entries x (hes ▸ hx)).range, (h.entries x (hes ▸ hx)).maxLSN⟩)
      (hchain.imp fun _ _ hn => hn.base)
  · rw [h.minTS, hes]
    simp
  · intro x hx
    rw [h.maxTS, List.getLastD_eq_getLast?, Option.mem_def.1 hx]
    rfl
  · rw [h.segmentCount, UInt64.toNat_ofNat_of_lt' hlen]

/-- What a root's range says about the entries below it. -/
abbrev RangeCovers (r : RootRange) (l : List LeafEntry) : Prop :=
  Covers r.seqLo r.seqHi r.minTS r.maxTS r.segments.toNat l

omit [Hashes] in
theorem Covers.seqHi_le {lo hi : UInt64} {t1 t2 : Int64} {n : Nat} (h : Covers lo hi t1 t2 n l) :
    hi ≤ maxRecordLSN := by
  have hlast := List.getLast?_eq_some_getLast h.nonempty
  have hend := h.tiles.getLast_eq hlast
  have hmax := (h.entries _ (List.getLast_mem h.nonempty)).maxLSN
  rw [UInt64.le_iff_toNat_le] at hmax ⊢
  omega

omit [Hashes] in
/-- Ranges that continue each other cover together what each covers. -/
theorem covers_ranges {r : RootRange} {rs : List RootRange} {ls : List (List LeafEntry)}
    (hchain : (r :: rs).IsChain RootNext) (hls : List.Forall₂ RangeCovers (r :: rs) ls) :
    Covers r.seqLo ((r :: rs).getLastD .zero).seqHi r.minTS ((r :: rs).getLastD .zero).maxTS
      (rootSegments (r :: rs)) ls.flatten := by
  induction rs generalizing r ls with
  | nil =>
    obtain ⟨l, _, hl, hnil, rfl⟩ := List.forall₂_cons_left_iff.1 hls
    obtain rfl := List.forall₂_nil_left_iff.1 hnil
    simpa [rootSegments] using hl
  | cons f rs ih =>
    obtain ⟨l, ls', hl, hls', rfl⟩ := List.forall₂_cons_left_iff.1 hls
    obtain ⟨hnext, hrest⟩ := List.isChain_cons_cons.1 hchain
    have hmid : f.seqLo.toNat = r.seqHi.toNat + 1 := by rw [hnext.base, toNat_succ_of_room hl.seqHi_le]
    have := hl.append (ih hrest hls') hmid hnext.timestamps
    rw [rootSegments_cons, List.flatten_cons]
    simpa using this

omit [Hashes] in
theorem matchesPageRef_iff {header : PageHeader} : matchesPageRef header ref config = true ↔
      header.partition = config.partition ∧ header.streamKey = config.streamKey ∧ header.level = ref.level ∧
      header.entryCount = ref.entryCount ∧ header.seqLo = ref.seqLo ∧ header.seqHi = ref.seqHi ∧
      header.minTimestampMS = ref.minTimestampMS ∧ header.maxTimestampMS = ref.maxTimestampMS ∧
      header.generation = ref.generation ∧ header.segmentCount = ref.segmentCount := by
  simp [matchesPageRef]

omit [Hashes] in
/-- The bounds of a page that matches a reference are the reference's. -/
theorem RefCovers.of_match {header : PageHeader} (hm : matchesPageRef header ref config = true)
    (h : Covers header.seqLo header.seqHi header.minTimestampMS header.maxTimestampMS header.segmentCount.toNat l) :
    RefCovers ref l := by
  obtain ⟨_, _, _, _, h5, h6, h7, h8, _, h10⟩ := matchesPageRef_iff.1 hm
  rwa [h5, h6, h7, h8, h10] at h

theorem leaves_leaf (h0 : ref.level = 0) : leaves config pages depth ref maxWriterEpoch =
      (·.entries) <$> eval pages (loadLeaf config ref maxWriterEpoch) := by
  rw [leaves.eq_def, if_pos h0]

theorem leaves_index (h0 : ref.level ≠ 0) : leaves config pages (depth + 1) ref maxWriterEpoch = (do
      let page ← eval pages (loadIndex config ref maxWriterEpoch)
      List.flatten <$> page.entries.mapM fun e => leaves config pages depth e page.header.writerEpoch) := by
  rw [leaves.eq_def, if_neg h0]

omit [Hashes] in
theorem indexPage_covers {page : IndexPage} {ls : List (List LeafEntry)} (h : IndexPageOk page)
    (hls : List.Forall₂ RefCovers page.entries ls) :
    Covers page.header.seqLo page.header.seqHi page.header.minTimestampMS page.header.maxTimestampMS
      page.header.segmentCount.toNat ls.flatten := by
  obtain ⟨e, es, hes⟩ := List.exists_cons_of_ne_nil h.nonempty
  have hnext : (e :: es).IsChain IndexNext := hes ▸ h.chain
  have hchain : ((e :: es).map IndexEntry.root).IsChain RootNext :=
    (List.isChain_map _).2 (hnext.imp fun _ _ hn => ⟨hn.room, hn.base, hn.timestamps⟩)
  have hcov : List.Forall₂ RangeCovers ((e :: es).map IndexEntry.root) ls :=
    List.forall₂_map_left_iff.2 (hes ▸ hls)
  have hall := covers_ranges hchain hcov
  have hlast : (((e :: es).map IndexEntry.root).getLastD .zero) = ((e :: es).getLastD .zero).root := by
    rw [List.getLastD_eq_getLast?, List.getLast?_map, List.getLastD_eq_getLast?]
    cases (e :: es).getLast? <;> rfl
  have hcount : rootSegments ((e :: es).map IndexEntry.root) = countSegments (e :: es) := by
    simp [rootSegments, countSegments, IndexEntry.root, Function.comp_def]
  rw [← List.map_cons, hlast, hcount] at hall
  rw [h.seqLo, h.seqHi, h.minTS, h.maxTS, h.segmentCount, hes]
  exact hall

/-- Contents come from one leaf page, or from the children of one index page. -/
theorem leaves_cases : leaves config pages depth ref maxWriterEpoch = .ok l ↔
      (ref.level = 0 ∧ ∃ page, eval pages (loadLeaf config ref maxWriterEpoch) = .ok page ∧ l = page.entries) ∨
      (ref.level ≠ 0 ∧ ∃ d page ls, depth = d + 1 ∧ eval pages (loadIndex config ref maxWriterEpoch) = .ok page ∧
        List.Forall₂ (fun e m => leaves config pages d e page.header.writerEpoch = .ok m) page.entries ls ∧
        l = ls.flatten) := by
  by_cases h0 : ref.level = 0
  · simp only [leaves_leaf h0, map_ok, h0, true_and, ne_eq, not_true_eq_false, false_and, or_false, eq_comm (a := l)]
  · simp only [h0, false_and, false_or, ne_eq, not_false_eq_true, true_and]
    cases depth with
    | zero =>
      rw [leaves.eq_def, if_neg h0]
      simp
    | succ d =>
      simp only [leaves_index h0, bind_ok, map_ok, mapM_ok]
      constructor
      · rintro ⟨page, hp, ls, hls, rfl⟩
        exact ⟨d, page, ls, rfl, hp, hls, rfl⟩
      · rintro ⟨_, page, ls, hd, hp, hls, rfl⟩
        obtain rfl := Nat.succ.inj hd
        exact ⟨page, hp, ls, hls, rfl⟩

/-- Whatever loads below a reference is what the reference says. -/
theorem leaves_covers (depth : Nat) (h : leaves config pages depth ref maxWriterEpoch = .ok l) : RefCovers ref l := by
  induction depth using Nat.strongRecOn generalizing ref maxWriterEpoch l with
  | ind depth ih =>
    obtain ⟨_, page, hp, rfl⟩ | ⟨_, d, page, ls, rfl, hp, hls, rfl⟩ := leaves_cases.1 h
    · have hl := loadLeaf_loaded hp
      exact .of_match hl.isRef (leafPage_covers hl.valid)
    · have hl := loadIndex_loaded hp
      have hcov : List.Forall₂ RefCovers page.entries ls := hls.imp fun _ _ hx => ih d (Nat.lt_succ_self d) hx
      exact .of_match hl.isRef (indexPage_covers hl.valid hcov)

end ObjLog.Catengine
