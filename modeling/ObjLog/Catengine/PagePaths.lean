import ObjLog.Catengine.Listing
import ObjLog.Catengine.Roots
/-!
# Listing page paths is exact

`refsAt` reads the references of one level below a reference and `pagesAt`
those below a head. They tile a range that begins at the oldest LSN: sections
are read from the highest level down, so the roots that reach a level come
before those that do not.
-/

namespace ObjLog.Catengine

open Lib Catformat Pmeta Blobstore

variable {head : Head}

variable {depth a b : Nat} {ref r : IndexEntry} {e : UInt64} {rs : List IndexEntry} {l : List LeafEntry}
   {c : PagePathCollector}

section
variable [Hashes]

/-- The references of `level` below `ref`, left to right, `ref` included. -/
def refsAt (config : Config) (pages : Pages) (level : UInt8) (depth : Nat) (ref : IndexEntry) (maxWriterEpoch : UInt64) :
    Except Err (List IndexEntry) :=
  if ref.level < level then .ok []
  else if ref.level = level then .ok [ref]
  else match depth with
    | 0 => throw (.plain "unreachable: child level not below its parent")
    | depth + 1 => do
      let page ← eval pages (loadIndex config ref maxWriterEpoch)
      List.flatten <$> page.entries.mapM fun e => refsAt config pages level depth e page.header.writerEpoch

def HeadRoot.refsAt (config : Config) (pages : Pages) (level : UInt8) (maxWriterEpoch : UInt64) :
    HeadRoot → Except Err (List IndexEntry)
  | .ref r => Catengine.refsAt config pages level r.level.toNat r maxWriterEpoch
  | .leaf _ => .ok []

/-- The reachable pages of one level, in order of their first LSN. -/
def pagesAt (config : Config) (pages : Pages) (level : UInt8) (head : Head) : Except Err (List IndexEntry) :=
  List.flatten <$> (headRoots head).mapM (HeadRoot.refsAt config pages level head.header.writerEpoch)

abbrev RefTiles (a b : Nat) (l : List IndexEntry) : Prop :=
  Tiles (fun r : IndexEntry => r.seqLo.toNat) (fun r => r.seqHi.toNat) a b l

variable {config : Config} {pages : Pages} {level : UInt8}

/-- The references of a level come from no page, the reference itself, or the children of one index page. -/
theorem refsAt_cases : refsAt config pages level depth ref e = .ok rs ↔
      (ref.level < level ∧ rs = []) ∨ (ref.level = level ∧ rs = [ref]) ∨
      (level < ref.level ∧ ∃ d page ls, depth = d + 1 ∧ eval pages (loadIndex config ref e) = .ok page ∧
        List.Forall₂ (fun c m => refsAt config pages level d c page.header.writerEpoch = .ok m) page.entries ls ∧
        rs = ls.flatten) := by
  rw [refsAt.eq_def]
  by_cases hlt : ref.level < level
  · have hne : ref.level ≠ level := fun h => absurd hlt (h ▸ UInt8.lt_irrefl _)
    have hng : ¬ level < ref.level := UInt8.not_lt.2 (UInt8.le_of_lt hlt)
    simp [hlt, hne, hng, eq_comm]
  · by_cases heq : ref.level = level
    · simp [heq, eq_comm]
    · have hgt : level < ref.level := UInt8.lt_of_le_of_ne (UInt8.not_lt.1 hlt) (Ne.symm heq)
      simp only [hlt, heq, if_false, false_and, false_or, hgt, true_and]
      cases depth with
      | zero => simp
      | succ d =>
        simp only [bind_ok, map_ok, mapM_ok]
        constructor
        · rintro ⟨page, hp, ls, hls, rfl⟩
          exact ⟨d, page, ls, rfl, hp, hls, rfl⟩
        · rintro ⟨_, page, ls, hd, hp, hls, rfl⟩
          obtain rfl := Nat.succ.inj hd
          exact ⟨page, hp, ls, hls, rfl⟩

/-! ## References tile -/

/-- What `refsAt` reads below a reference. -/
structure RefsBelow (config : Config) (pages : Pages) (level : UInt8) (depth : Nat) (ref : IndexEntry) (e : UInt64)
    (rs : List IndexEntry) : Prop where
  range : ref.seqLo.toNat ≤ ref.seqHi.toNat
  reads : refsAt config pages level depth ref e = .ok rs
  tiles : RefTiles ref.seqLo.toNat (ref.seqHi.toNat + 1) rs
  levels : ∀ r ∈ rs, r.level = level

/-- Wherever the contents load, so do the references of every level, and they tile. -/
theorem refsAt_of_leaves (level : UInt8) (depth : Nat)
    (h : leaves config pages depth ref e = .ok l) (hdepth : ref.level.toNat = depth) (hlevel : level ≤ ref.level) :
    ∃ rs, RefsBelow config pages level depth ref e rs := by
  induction depth using Nat.strongRecOn generalizing ref e l with
  | ind depth ih =>
    have hcov := leaves_covers _ h
    have hrange : ref.seqLo.toNat ≤ ref.seqHi.toNat := by
      obtain ⟨x, hx⟩ := List.exists_mem_of_ne_nil _ hcov.nonempty
      have := hcov.tiles.mem_bounds hx
      omega
    by_cases heq : ref.level = level
    · exact ⟨[ref], hrange, refsAt_cases.2 (.inr (.inl ⟨heq, rfl⟩)), ⟨rfl, hrange, rfl⟩, by simp [heq]⟩
    · have hgt : level < ref.level := UInt8.lt_of_le_of_ne hlevel (Ne.symm heq)
      obtain ⟨h0, _⟩ | ⟨_, d, page, ls, rfl, hp, hls, rfl⟩ := leaves_cases.1 h
      · rw [h0] at hgt
        exact absurd hgt (UInt8.not_lt.2 (UInt8.le_iff_toNat_le.2 (Nat.zero_le _)))
      · have hload := loadIndex_loaded hp
        have hv := hload.valid
        have hchild : ∀ c m, (c ∈ page.entries ∧ leaves config pages d c page.header.writerEpoch = .ok m) →
            ∃ rs, RefsBelow config pages level d c page.header.writerEpoch rs := by
          rintro c m ⟨hc, hm⟩
          have hcl := hload.child_level hc
          have hgt' := UInt8.lt_iff_toNat_lt.1 hgt
          exact ih d (Nat.lt_succ_self d) hm (by omega) (UInt8.le_iff_toNat_le.2 (by omega))
        obtain ⟨rss, hrss⟩ := forall₂_exists (forall₂_with_mem hls) hchild
        have htiles : RefTiles ref.seqLo.toNat (ref.seqHi.toNat + 1) page.entries := by
          obtain ⟨x, xs, hxs⟩ := List.exists_cons_of_ne_nil hv.nonempty
          obtain ⟨_, _, _, _, hlo, hhi, _⟩ := matchesPageRef_iff.1 hload.isRef
          rw [← hlo, ← hhi, hv.seqLo, hv.seqHi, hxs]
          have hchain : (x :: xs).IsChain IndexNext := hxs ▸ hv.chain
          exact tiles_of_isChain .zero
            (fun y hy => ⟨(hv.entries y (hxs ▸ hy)).entry.range, (hv.entries y (hxs ▸ hy)).entry.maxLSN⟩)
            (hchain.imp fun _ _ hn => hn.base)
        refine ⟨rss.flatten, hrange, refsAt_cases.2 (.inr (.inr ⟨hgt, d, page, rss, rfl, hp, ?_, rfl⟩)), ?_, ?_⟩
        · exact hrss.imp fun _ _ hr => hr.reads
        · exact htiles.flatten (hrss.imp fun _ _ hr => hr.tiles)
        · intro r hr
          obtain ⟨m, hm, hrm⟩ := List.mem_flatten.1 hr
          obtain ⟨c, _, hc⟩ := forall₂_mem_left hrss.flip hm
          exact hc.levels r hrm

/-! ## Collecting below a reference -/

/-- Ends at `seq` or later. -/
def refEndsFrom (seq : UInt64) (r : IndexEntry) : Bool := r.seqHi ≥ seq

omit [Hashes] in
theorem refEndsFrom_upward (h : RefTiles a b rs) (seq : UInt64) : Upward (refEndsFrom seq) rs := by
  refine (h.upward seq.toNat).imp fun {x y} hxy => ?_
  simpa only [refEndsFrom, decide_eq_true_eq, ge_iff_le, UInt64.le_iff_toNat_le] using hxy

omit [Hashes] in
theorem filter_refEndsFrom_nil (h : RefTiles a b rs) {seq : UInt64}
    (hb : b ≤ seq.toNat) : rs.filter (refEndsFrom seq) = [] := by
  refine List.filter_eq_nil_iff.2 fun r hr => ?_
  have := h.mem_bounds hr
  simp only [refEndsFrom, ge_iff_le, decide_eq_true_eq, UInt64.le_iff_toNat_le]
  omega

theorem addPath_done (h : c.done = true) (r : IndexEntry) : c.add config r = c := by
  simp [PagePathCollector.add, h]

theorem addPath_from (c : PagePathCollector) (r : IndexEntry) : (c.add config r).fromSeqLo = c.fromSeqLo := by
  unfold PagePathCollector.add
  split
  · rfl
  · split <;> rfl

theorem addPath_before (h : refEndsFrom c.fromSeqLo r = false) : c.add config r = c := by
  have hlt : r.seqHi < c.fromSeqLo := by
    simp only [refEndsFrom, ge_iff_le, decide_eq_false_iff_not] at h
    exact UInt64.not_le.1 h
  simp [PagePathCollector.add, hlt]

theorem foldl_addPath_before {seq : UInt64} (rs : List IndexEntry) (hc : c.fromSeqLo = seq) :
    (rs.filter (refEndsFrom seq)).foldl (PagePathCollector.add config) c = rs.foldl (PagePathCollector.add config) c :=
  foldl_filter_ignored (I := fun c => c.fromSeqLo = seq) (fun c r hc => (addPath_from c r).trans hc)
    (fun _ _ hc hr => addPath_before (hc ▸ hr)) rs hc

/-- The last reference below a child ends where the child does. -/
theorem RefsBelow.summary (h : RefsBelow config pages level depth ref e rs) (seq : UInt64) :
    Summary (refEndsFrom seq) (fun r : IndexEntry => decide (r.seqHi ≥ seq)) ref rs := by
  have hne : rs ≠ [] := by
    rintro rfl
    have hempty := Tiles.nil_iff.1 h.tiles
    have := h.range
    omega
  refine ⟨hne, fun r hr => ?_⟩
  have hend : r.seqHi = ref.seqHi := UInt64.toNat_inj.1 (Nat.add_right_cancel (h.tiles.getLast_eq hr))
  simp only [refEndsFrom, hend]

theorem refsAt_above (h : ref.level < level) : refsAt config pages level depth ref e = .ok [] :=
  refsAt_cases.2 (.inl ⟨h, rfl⟩)

/-- Collecting below a reference is adding every reference of the level. -/
theorem collectPagePath_eq (depth : Nat)
    (h : leaves config pages depth ref e = .ok l) (hdepth : ref.level.toNat = depth)
    (hrs : refsAt config pages level depth ref e = .ok rs) :
    eval pages (collectPagePath config level depth ref e c) = .ok (rs.foldl (PagePathCollector.add config) c) := by
  induction depth using Nat.strongRecOn generalizing ref e l rs c with
  | ind depth ih =>
    rw [collectPagePath.eq_def]
    by_cases hlow : ref.level < level
    · -- the level lies above
      obtain rfl : [] = rs := by simpa [refsAt_above hlow] using hrs
      simp [hlow]
    · obtain ⟨rs', hbelow⟩ := refsAt_of_leaves level depth h hdepth (UInt8.not_lt.1 hlow)
      obtain rfl : rs' = rs := by simpa [hbelow.reads] using hrs
      split
      · -- full already, or everything below ends before the start
        rename_i hskip
        have hfix : rs'.foldl (PagePathCollector.add config) c = c := by
          rcases hskip with hd | hlt | hlt
          · exact foldl_fixed rs' fun x _ => addPath_done hd x
          · rw [← foldl_addPath_before rs' rfl, filter_refEndsFrom_nil hbelow.tiles (UInt64.lt_iff_toNat_lt.1 hlt)]
            rfl
          · exact absurd hlt hlow
        rw [hfix]
        rfl
      · have hup := refEndsFrom_upward hbelow.tiles c.fromSeqLo
        obtain ⟨hlt, _⟩ | ⟨heq, rfl⟩ | ⟨hgt, d, page, rss, rfl, hp, hrss, rfl⟩ := refsAt_cases.1 hbelow.reads
        · exact absurd hlt hlow
        · rw [if_pos heq]
          rfl
        · have hne : ref.level ≠ level := fun heq => UInt8.lt_irrefl _ (heq ▸ hgt)
          have hload := loadIndex_loaded hp
          obtain ⟨h0, _⟩ | ⟨_, d', page', ls, hd, hp', hls, rfl⟩ := leaves_cases.1 h
          · rw [h0] at hgt
            exact absurd hgt (UInt8.not_lt.2 (UInt8.le_iff_toNat_le.2 (Nat.zero_le _)))
          · obtain rfl := Nat.succ.inj hd
            obtain rfl : page = page' := by simpa [hp] using hp'
            rw [if_neg hne]
            dsimp only
            rw [eval_bind, hp]
            -- each child loads, lies one level down, and reaches the level
            have hchild : ∀ r m, (r ∈ page.entries ∧ refsAt config pages level d r page.header.writerEpoch = .ok m) →
                r.level.toNat = d ∧ (∃ x, leaves config pages d r page.header.writerEpoch = .ok x) ∧
                  RefsBelow config pages level d r page.header.writerEpoch m := by
              rintro r m ⟨hr, hm⟩
              have hcl := hload.child_level hr
              have hgt' := UInt8.lt_iff_toNat_lt.1 hgt
              obtain ⟨x, _, hx⟩ := forall₂_mem_left hls hr
              have hrd : r.level.toNat = d := by omega
              obtain ⟨m', hm'⟩ := refsAt_of_leaves level d hx hrd (UInt8.le_iff_toNat_le.2 (by omega))
              obtain rfl : m' = m := by simpa [hm'.reads] using hm
              exact ⟨hrd, ⟨x, hx⟩, hm'⟩
            refine eval_untilDone_from PagePathCollector.done (fun s => s.fromSeqLo = c.fromSeqLo)
              (fun s a hs => (addPath_from s a).trans hs) (fun _ r hd => addPath_done hd r)
              (fun r m hm => (hchild r m hm).2.2.summary _) (forall₂_with_mem hrss) hup
              (fun _ _ hs ha => addPath_before (hs ▸ ha)) (fun r m s hm _ => ?_) rfl
            obtain ⟨hrd, ⟨x, hx⟩, hm'⟩ := hchild r m hm
            exact ih d (Nat.lt_succ_self d) hx hrd hm'.reads

/-! ## Below a head -/

omit [Hashes] in
/-- References are read from the highest level down. -/
theorem sectionRefs_descend (ss : List OpenIndexSection) (h : Leveled ss) :
    (sectionRefs ss).Pairwise fun a b => b.level.toNat ≤ a.level.toNat := by
  induction ss using List.reverseRecOn with
  | nil => exact .nil
  | append_singleton ss s ih =>
    have hlow : Leveled ss := by
      intro j t ht
      exact h j t (by rw [List.getElem?_append_left (List.getElem?_eq_some_iff.1 ht).1, ht])
    have htop : ∀ r ∈ s.entries, r.level.toNat = ss.length := h ss.length s (by simp)
    rw [sectionRefs_append]
    refine List.pairwise_append.2 ⟨?_, ih hlow, ?_⟩
    · simp only [sectionRefs, List.reverse_singleton, List.flatMap_singleton]
      exact List.pairwise_of_forall_mem_list fun a ha b hb => by rw [htop a ha, htop b hb]
    · intro a ha b hb
      simp only [sectionRefs, List.reverse_singleton, List.flatMap_singleton] at ha
      obtain ⟨t, ht, hbt⟩ := List.mem_flatMap.1 hb
      obtain ⟨j, hj, rfl⟩ := List.mem_iff_getElem.1 (List.mem_reverse.1 ht)
      rw [htop a ha, hlow j _ (List.getElem?_eq_getElem hj) b hbt]
      exact Nat.le_of_lt hj

/-- The root is a page of `level` or above it. -/
def HeadRoot.Reaches (level : UInt8) : HeadRoot → Prop
  | .ref r => level ≤ r.level
  | .leaf _ => False

omit [Hashes] in
theorem headRoots_descend (h : HeadOk head) (level : UInt8) :
    (headRoots head).Pairwise fun x y => y.Reaches level → x.Reaches level := by
  have hrefs : (head.sections.reverse.flatMap fun s => s.entries.map HeadRoot.ref) =
      (sectionRefs head.sections).map HeadRoot.ref := by
    simp [sectionRefs, List.map_flatMap]
  rw [headRoots, hrefs]
  refine List.pairwise_append.2 ⟨?_, ?_, ?_⟩
  · refine List.pairwise_map.2 ((sectionRefs_descend _ (headOk_leveled h)).imp fun {a b} hab hb => ?_)
    exact UInt8.le_iff_toNat_le.2 (Nat.le_trans (UInt8.le_iff_toNat_le.1 hb) hab)
  · exact List.pairwise_map.2 (List.pairwise_of_forall_mem_list fun _ _ _ _ hb => hb.elim)
  · intro x _ y hy hr
    obtain ⟨e, _, rfl⟩ := List.mem_map.1 hy
    exact hr.elim

/-- The roots tile the retained range. -/
theorem Inv.rootTiles (h : Inv config pages head l) :
    ∃ b, Tiles (fun r : HeadRoot => r.range.seqLo.toNat) (fun r => r.range.seqHi.toNat) head.header.oldestLSN.toNat b
      (headRoots head) :=
  ⟨_, (map_range_headRoots head ▸ rootRanges_tiles h.valid).of_map⟩

/-- What a root gives to the pages of a level. -/
structure RootRefs (config : Config) (pages : Pages) (head : Head) (level : UInt8) (root : HeadRoot)
    (m : List IndexEntry) : Prop where
  reads : root.refsAt config pages level head.header.writerEpoch = .ok m
  tiles : (root.Reaches level ∧ RefTiles root.range.seqLo.toNat (root.range.seqHi.toNat + 1) m) ∨
    (¬ root.Reaches level ∧ m = [])
  collects : ∀ c, eval pages (collectRootPath config head level c root) = .ok (m.foldl (PagePathCollector.add config) c)

theorem RootHolds.refs {root : HeadRoot} {m : List LeafEntry} (h : RootHolds config pages head root m)
    (level : UInt8) : ∃ rs, RootRefs config pages head level root rs := by
  cases root with
  | leaf e => exact ⟨[], rfl, .inr ⟨id, rfl⟩, fun _ => rfl⟩
  | ref r =>
    by_cases hr : level ≤ r.level
    · obtain ⟨rs, hrs⟩ := refsAt_of_leaves level _ h.2 rfl hr
      exact ⟨rs, hrs.reads, .inl ⟨hr, hrs.tiles⟩, fun _ => collectPagePath_eq _ h.2 rfl hrs.reads⟩
    · have hnone : refsAt config pages level r.level.toNat r head.header.writerEpoch = .ok [] :=
        refsAt_above (UInt8.not_le.1 hr)
      exact ⟨[], hnone, .inr ⟨hr, rfl⟩, fun _ => collectPagePath_eq _ h.2 rfl hnone⟩

theorem Inv.rootRefs (h : Inv config pages head l) (level : UInt8) :
    ∃ rss, List.Forall₂ (RootRefs config pages head level) (headRoots head) rss := by
  obtain ⟨ls, hls, _⟩ := h.roots
  exact forall₂_exists hls fun _ _ hr => hr.refs level

theorem pagesAt_of_rootRefs {rss : List (List IndexEntry)}
    (h : List.Forall₂ (RootRefs config pages head level) (headRoots head) rss) :
    pagesAt config pages level head = .ok rss.flatten := by
  simp only [pagesAt, map_ok, mapM_ok]
  exact ⟨rss, h.imp fun _ _ hr => hr.reads, rfl⟩

/-- The pages of a level load and tile from the oldest LSN. -/
theorem Inv.pagesAt (h : Inv config pages head l) (level : UInt8) :
    ∃ rs b, pagesAt config pages level head = .ok rs ∧ RefTiles head.header.oldestLSN.toNat b rs := by
  obtain ⟨rss, hrss⟩ := h.rootRefs level
  obtain ⟨_, htiles⟩ := h.rootTiles
  obtain ⟨b, hb⟩ := htiles.flatten_while (headRoots_descend h.valid level) (hrss.imp fun _ _ hr => hr.tiles)
  exact ⟨rss.flatten, b, pagesAt_of_rootRefs hrss, hb⟩

/-! ## One page of paths -/

/-- The collector of the source, as what it has kept and where it resumes. -/
def pathCollector (config : Config) (from_ : UInt64) (limit : Nat) (c : Collector IndexEntry) : PagePathCollector where
  fromSeqLo := from_
  limit := limit
  paths := c.kept.map config.pagePath
  nextSeqLo := (c.resume.map (·.seqLo)).getD 0
  hasMore := c.resume.isSome

theorem pathCollector_add (from_ : UInt64) (limit : Nat) (c : Collector IndexEntry) (r : IndexEntry) :
    (pathCollector config from_ limit c).add config r =
      pathCollector config from_ limit (c.add (refEndsFrom from_) limit r) := by
  have hends : refEndsFrom from_ r = !decide (r.seqHi < from_) := by
    rw [refEndsFrom, ← decide_not]
    simp only [ge_iff_le, UInt64.not_lt]
  unfold PagePathCollector.add Collector.add
  cases hr : c.resume with
  | some x => simp [pathCollector, PagePathCollector.done, hr]
  | none =>
    by_cases hb : r.seqHi < from_
    · simp [pathCollector, PagePathCollector.done, hr, hb, hends]
    · by_cases hfull : c.kept.length = limit <;>
        simp [pathCollector, PagePathCollector.done, hr, hb, hends, hfull]

theorem pathCollector_foldl (from_ : UInt64) (limit : Nat) (rs : List IndexEntry) :
    rs.foldl (PagePathCollector.add config) ⟨from_, limit, [], 0, false⟩ = pathCollector config from_ limit
        ⟨(rs.filter (refEndsFrom from_)).take limit, (rs.filter (refEndsFrom from_))[limit]?⟩ := by
  have hstart : pathCollector config from_ limit ⟨[], none⟩ = ⟨from_, limit, [], 0, false⟩ := rfl
  rw [← Collector.collect_eq, ← hstart]
  exact List.foldl_hom (pathCollector config from_ limit) (pathCollector_add from_ limit)

/-- One page of paths. -/
def pathPage (config : Config) (limit : Nat) (from_ : UInt64) (rs : List IndexEntry) : PagePathPage where
  paths := ((rs.filter (refEndsFrom from_)).take limit).map config.pagePath
  nextSeqLo := ((rs.filter (refEndsFrom from_))[limit]?.map (·.seqLo)).getD 0
  hasMore := (rs.filter (refEndsFrom from_))[limit]?.isSome

/-- `ListPagePaths` returns one page of the paths of a level. -/
theorem listPagePaths_eq (h : Inv config pages head l)
    (hlevel : level.toNat ≤ maxIndexLevel) (hrs : pagesAt config pages level head = .ok rs) (from_ : UInt64)
    (limit : Int) :
    eval pages (listPagePaths config head level from_ limit) = .ok (pathPage config (pageLimit limit) from_ rs) := by
  obtain ⟨rss, hrss⟩ := h.rootRefs level
  obtain rfl : rss.flatten = rs := Except.ok.inj ((pagesAt_of_rootRefs hrss).symm.trans hrs)
  have hchecked : failIf (level.toNat > maxIndexLevel)
      (.plain s!"catengine: page level={level} exceeds maximum={maxIndexLevel}") = .ok () :=
    (failIf_ok _ _ _).2 (Nat.not_lt.2 hlevel)
  have hloop := eval_untilDone PagePathCollector.done (fun _ => True) (fun _ _ h => h) (fun _ r hd => addPath_done hd r)
    (hrss.imp fun _ _ hr c _ => hr.collects c) (s := ⟨from_, pageLimit limit, [], 0, false⟩) trivial
  simp only [listPagePaths, reads_ok, hchecked, h.identity, hloop, pathCollector_foldl]
  rfl

/-! ## Which pages are listed -/

theorem refsAt_sound (depth : Nat) {m : List IndexEntry}
    (hb : RefBelow config pages head ref e) (h : refsAt config pages level depth ref e = .ok m)
    (hr : r ∈ m) : r.level = level ∧ ∃ e', RefBelow config pages head r e' := by
  induction depth using Nat.strongRecOn generalizing ref e m with
  | ind depth ih =>
    obtain ⟨_, rfl⟩ | ⟨heq, rfl⟩ | ⟨hgt, d, page, ls, rfl, hp, hls, rfl⟩ := refsAt_cases.1 h
    · simp at hr
    · obtain rfl := List.mem_singleton.1 hr
      exact ⟨heq, e, hb⟩
    · obtain ⟨x, hx, hrx⟩ := List.mem_flatten.1 hr
      obtain ⟨c, hc, hcx⟩ := forall₂_mem_left hls.flip hx
      have h0 : ref.level ≠ 0 := fun h0 => absurd (h0 ▸ hgt) (UInt8.not_lt.2 (UInt8.le_iff_toNat_le.2 (Nat.zero_le _)))
      exact ih d (Nat.lt_succ_self d) (.child hb h0 hp hc) hcx hrx

omit [Hashes] in
theorem ref_mem_headRoots : HeadRoot.ref r ∈ headRoots head ↔ r ∈ sectionRefs head.sections := by
  simp [headRoots, sectionRefs]

/-- Everything of the level below a reachable reference is listed. -/
theorem refsAt_complete (hrs : pagesAt config pages level head = .ok rs)
    (hb : RefBelow config pages head ref e) (hlevel : level ≤ ref.level) :
    ∃ m, refsAt config pages level ref.level.toNat ref e = .ok m ∧ m ⊆ rs := by
  induction hb with
  | @root ref hmem =>
    simp only [pagesAt, map_ok, mapM_ok] at hrs
    obtain ⟨rss, hrss, rfl⟩ := hrs
    obtain ⟨m, hm, hread⟩ := forall₂_mem_left hrss (ref_mem_headRoots.2 hmem)
    exact ⟨m, hread, fun x hx => List.mem_flatten.2 ⟨m, hm, hx⟩⟩
  | @child ref c e page _ h0 hp hc ih =>
    have hcl := (loadIndex_loaded hp).child_level hc
    have hgt : level < ref.level := by
      rw [UInt8.lt_iff_toNat_lt]
      have := UInt8.le_iff_toNat_le.1 hlevel
      omega
    obtain ⟨m, hm, hsub⟩ := ih (UInt8.le_of_lt hgt)
    obtain ⟨hlt, _⟩ | ⟨heq, _⟩ | ⟨_, d, page', ls, hd, hp', hls, rfl⟩ := refsAt_cases.1 hm
    · exact absurd hlt (UInt8.not_lt.2 (UInt8.le_of_lt hgt))
    · exact absurd (heq ▸ hgt) (UInt8.lt_irrefl _)
    · obtain rfl : page = page' := Except.ok.inj (hp.symm.trans hp')
      obtain rfl : c.level.toNat = d := by omega
      obtain ⟨x, hx, hread⟩ := forall₂_mem_left hls hc
      exact ⟨x, hread, fun y hy => hsub (List.mem_flatten.2 ⟨x, hx, hy⟩)⟩

/-- The pages of a level are the reachable references of that level. -/
theorem mem_pagesAt (hrs : pagesAt config pages level head = .ok rs)
    (r : IndexEntry) : r ∈ rs ↔ r.level = level ∧ ∃ e, RefBelow config pages head r e := by
  constructor
  · intro hr
    simp only [pagesAt, map_ok, mapM_ok] at hrs
    obtain ⟨rss, hrss, rfl⟩ := hrs
    obtain ⟨m, hm, hrm⟩ := List.mem_flatten.1 hr
    obtain ⟨root, hroot, hread⟩ := forall₂_mem_left hrss.flip hm
    cases root with
    | leaf e =>
      obtain rfl : [] = m := Except.ok.inj hread
      simp at hrm
    | ref ref => exact refsAt_sound _ (.root (ref_mem_headRoots.1 hroot)) hread hrm
  · rintro ⟨heq, e, hb⟩
    obtain ⟨m, hm, hsub⟩ := refsAt_complete hrs hb (heq ▸ UInt8.le_refl _)
    obtain rfl : [r] = m := Except.ok.inj ((refsAt_cases.2 (.inr (.inl ⟨heq, rfl⟩))).symm.trans hm)
    exact hsub List.mem_cons_self

/-! ## Paths are distinct -/

omit [Hashes] in
theorem pageName_seqHi {s : IndexEntry} (h : Config.pageName r = Config.pageName s) : r.seqHi = s.seqHi := by
  have hfits : ∀ x : UInt64, x.toNat < 10 ^ 20 := fun x => Nat.lt_trans x.toNat_lt (by decide)
  simp only [Config.pageName, String.append_assoc] at h
  exact UInt64.toNat_inj.1 (padDec_append_inj (by decide) (hfits _) (hfits _) h)

theorem pagePath_seqHi {s : IndexEntry} (hlevel : r.level = s.level) (h : config.pagePath r = config.pagePath s) :
    r.seqHi = s.seqHi := by
  refine pageName_seqHi ?_
  simp only [Config.pagePath, Config.leafPagePath, Config.indexPagePath, hlevel] at h
  split at h <;> exact (String.append_right_inj _).1 h

/-- Pages of one level have different paths. -/
theorem paths_nodup (h : RefTiles a b rs) (hlevel : ∀ r ∈ rs, r.level = level) : (rs.map config.pagePath).Nodup := by
  refine List.pairwise_map.2 (h.pairwise.imp_of_mem fun {r s} hr hs hrs heq => ?_)
  have hsame := pagePath_seqHi ((hlevel r hr).trans (hlevel s hs).symm) heq
  have := h.mem_bounds hs
  rw [hsame] at hrs
  omega

/-! ## Page after page -/

/-- One call of `ListSegments`, and where to go on while there is more. -/
def segmentPages (config : Config) (pages : Pages) (head : Head) (from_ : UInt64) (limit : Int) :
    Option (List SegmentRef × Option UInt64) :=
  match eval pages (listSegments config head from_ limit) with
  | .error _ => none
  | .ok page => some (page.segments, if page.hasMore then some page.nextLSN else none)

/-- One call of `ListPagePaths`, and where to go on while there is more. -/
def pathPages (config : Config) (pages : Pages) (head : Head) (level : UInt8) (from_ : UInt64) (limit : Int) :
    Option (List String × Option UInt64) :=
  match eval pages (listPagePaths config head level from_ limit) with
  | .error _ => none
  | .ok page => some (page.paths, if page.hasMore then some page.nextSeqLo else none)

omit [Hashes] in
/-- Whatever limit is asked for, a page has room. -/
theorem pageLimit_pos (limit : Int) : 0 < pageLimit limit := by
  unfold pageLimit
  split
  · decide
  · omega

omit [Hashes] in
theorem resume_eq {α : Type} (x : Option α) (start : α → UInt64) :
    (if x.isSome then some ((x.map start).getD 0) else none) = x.map start := by
  cases x <;> rfl

theorem Inv.segmentPages_lists (h : Inv config pages head l) :
    Lists (segmentPages config pages head) (fun e : LeafEntry => e.lastLSN.toNat) UInt64.toNat (·.baseLSN)
      config.segmentRef pageLimit l where
  size_pos := pageLimit_pos
  page k n := by
    unfold segmentPages
    rw [listSegments_eq h]
    dsimp only [segmentPage]
    rw [resume_eq]
    rfl

theorem Inv.pathPages_lists (h : Inv config pages head l)
    (hlevel : level.toNat ≤ maxIndexLevel) (hrs : Catengine.pagesAt config pages level head = .ok rs) :
    Lists (pathPages config pages head level) (fun r : IndexEntry => r.seqHi.toNat) UInt64.toNat (·.seqLo)
      config.pagePath pageLimit rs where
  size_pos := pageLimit_pos
  page k n := by
    unfold pathPages
    rw [listPagePaths_eq h hlevel hrs]
    dsimp only [pathPage]
    rw [resume_eq]
    rfl

/-- No page lies above the highest index level. -/
theorem Inv.level_le (h : Inv config pages head l)
    (hb : RefBelow config pages head r e) : r.level.toNat ≤ maxIndexLevel := by
  obtain ⟨m, hm⟩ := h.below hb
  obtain ⟨h0, _⟩ | ⟨_, _, page, _, _, hp, _⟩ := leaves_cases.1 hm
  · simp [h0]
  · have hload := loadIndex_loaded hp
    obtain ⟨_, _, hl, _⟩ := matchesPageRef_iff.1 hload.isRef
    rw [← hl]
    exact hload.valid.level

theorem segmentRefs_nodup (h : LsnTiles a b l) : (l.map config.segmentRef).Nodup := by
  refine List.pairwise_map.2 (h.pairwise.imp_of_mem fun {x y} hx _ hxy heq => ?_)
  have hbase : x.baseLSN = y.baseLSN := congrArg SegmentRef.baseLSN heq
  have := h.mem_bounds hx
  rw [← hbase] at hxy
  omega

/-- Pagination is exact. Asking for one page after another ends, each page starts right of the one before, and
together the pages hold exactly what ends at the start or later, each once. -/
theorem reachable_listings {head : Head} (h : Reachable config pages head) :
    (∃ l, flat config pages head = .ok l ∧ ∀ (start : UInt64) (limits : Nat → Int), ∃ run,
      readPages (segmentPages config pages head) limits (l.length + 1) 0 start = some run ∧
      run.IsChain (fun p q => p.1 < q.1) ∧
      run.flatMap (·.2) = (l.filter fun e => decide (start ≤ e.lastLSN)).map config.segmentRef ∧
      (run.flatMap (·.2)).Nodup) ∧ (∀ r e, RefBelow config pages head r e → r.level.toNat ≤ maxIndexLevel) ∧
    ∀ level : UInt8, level.toNat ≤ maxIndexLevel → ∃ rs : List IndexEntry,
      (∀ r, r ∈ rs ↔ r.level = level ∧ ∃ e, RefBelow config pages head r e) ∧
      rs.Pairwise (fun r s => r.seqLo < s.seqLo) ∧ ∀ (start : UInt64) (limits : Nat → Int), ∃ run,
        readPages (pathPages config pages head level) limits (rs.length + 1) 0 start = some run ∧
        run.IsChain (fun p q => p.1 < q.1) ∧
        run.flatMap (·.2) = (rs.filter fun r => decide (start ≤ r.seqHi)).map config.pagePath ∧
        (run.flatMap (·.2)).Nodup := by
  obtain ⟨l, hi⟩ := h.inv
  refine ⟨⟨l, hi.contents, fun start limits => ?_⟩, fun r e hb => hi.level_le hb, fun level hlevel => ?_⟩
  · obtain ⟨run, hrun, _, hchain, hflat⟩ := readPages_eq hi.tiles hi.segmentPages_lists (fun _ => rfl) limits
      (l.length + 1) 0 start (Nat.lt_succ_of_le (List.length_filter_le _ _))
    refine ⟨run, hrun, hchain.imp fun _ _ hlt => UInt64.lt_iff_toNat_lt.2 hlt, hflat, ?_⟩
    obtain ⟨_, htiles⟩ := hi.tiles.filter start.toNat
    rw [hflat]
    exact segmentRefs_nodup htiles
  · obtain ⟨rs, b, hrs, htiles⟩ := hi.pagesAt level
    have hmem := mem_pagesAt hrs
    refine ⟨rs, hmem, htiles.pairwise.imp_of_mem fun {x _} hx _ hxy => ?_, fun start limits => ?_⟩
    · have := htiles.mem_bounds hx
      exact UInt64.lt_iff_toNat_lt.2 (by omega)
    · obtain ⟨run, hrun, _, hchain, hflat⟩ := readPages_eq htiles (hi.pathPages_lists hlevel hrs) (fun _ => rfl)
        limits (rs.length + 1) 0 start (Nat.lt_succ_of_le (List.length_filter_le _ _))
      refine ⟨run, hrun, hchain.imp fun _ _ hlt => UInt64.lt_iff_toNat_lt.2 hlt, hflat, ?_⟩
      obtain ⟨_, htail⟩ := htiles.filter start.toNat
      rw [hflat]
      exact paths_nodup htail fun r hr => ((hmem r).1 (List.mem_filter.1 hr).1).1

end

set_option maxRecDepth 20000 in
/-- The two segments of the sample, one at a time. -/
theorem reachable_listings_two : letI := Sample.hashes
    ∃ run, readPages (segmentPages Sample.config Sample.store Sample.two.head) (fun _ => 1) 3 0 11 = some run ∧
      run.flatMap (·.2) = [Sample.segment 10, Sample.segment 13] := by
  let _ := Sample.hashes
  obtain ⟨⟨l, hl, hlist⟩, _, _⟩ := reachable_listings Sample.reachable_two
  have hl' : l = [Config.entryOf (Sample.segment 10), Config.entryOf (Sample.segment 13)] := by
    have hval : Sample.value [] (flat Sample.config Sample.store Sample.two.head) =
        [Config.entryOf (Sample.segment 10), Config.entryOf (Sample.segment 13)] := by decide +kernel
    rwa [hl] at hval
  subst hl'
  obtain ⟨run, hrun, _, hflat, _⟩ := hlist 11 fun _ => 1
  exact ⟨run, hrun, hflat.trans (by decide +kernel)⟩

end ObjLog.Catengine
