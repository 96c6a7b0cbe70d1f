import ObjLog.Catengine.Lookup
import ObjLog.Catengine.Retention
/-!
# Trimming keeps a suffix of the history

Cutting a reference at `effective` writes new pages along one path and leaves
every other page alone; the new reference holds exactly the entries that end at
`effective` or later.
-/

namespace ObjLog.Catengine

open Lib Catformat Pmeta Blobstore
open UInt64 (le_iff_toNat_le le_refl not_lt)

variable [Hashes]

variable {config : Config} {head : Head}

variable {l : List LeafEntry} {effective generation writerEpoch target : UInt64} {pages pages' : Pages}
   {objects : List PageObject} {a b : Nat}

omit [Hashes] in
/-- Nothing is cut from a history that begins at the boundary or after it. -/
theorem filter_endsFrom_self {lo hi : UInt64} {t1 t2 : Int64} {n : Nat}
    (h : Covers lo hi t1 t2 n l) (hle : effective ≤ lo) : l.filter (endsFrom effective) = l := by
  refine List.filter_eq_self.2 fun e he => ?_
  have hb := h.tiles.mem_bounds he
  rw [le_iff_toNat_le] at hle
  simp only [endsFrom, ge_iff_le, decide_eq_true_eq, le_iff_toNat_le]
  omega

omit [Hashes] in
/-- A child of a loaded index page is one level below its reference. -/
theorem IndexLoaded.child_level {ref : IndexEntry} {e : UInt64} {page : IndexPage}
    (h : IndexLoaded config ref e page) {c : IndexEntry} (hc : c ∈ page.entries) :
    c.level.toNat + 1 = ref.level.toNat := by
  have hchild := h.valid.entries c hc
  obtain ⟨_, _, hl, _⟩ := matchesPageRef_iff.1 h.isRef
  have hmax := hchild.entry.level
  have hlevel := congrArg UInt8.toNat (hchild.level.trans hl)
  simp only [maxIndexLevel] at hmax
  rw [UInt8.toNat_add] at hlevel
  simp only [UInt8.reduceToNat] at hlevel
  omega

/-- What a trimmed reference holds, given the pages written for it. -/
def TrimSpec (config : Config) (pages : Pages) (effective writerEpoch : UInt64) (depth : Nat) (ref ref' : IndexEntry)
    (objects : List PageObject) (l : List LeafEntry) : Prop :=
  ∀ pages', Grows pages pages' → Stored pages' objects →
    ref'.level = ref.level ∧ leaves config pages' depth ref' writerEpoch = .ok (l.filter (endsFrom effective))

theorem trimPageRef_spec (depth : Nat) {ref ref' : IndexEntry} (hdepth : ref.level.toNat = depth)
    (hl : leaves config pages depth ref writerEpoch = .ok l)
    (h : eval pages (trimPageRef config effective generation writerEpoch depth ref) = .ok (ref', objects)) :
    TrimSpec config pages effective writerEpoch depth ref ref' objects l := by
  induction depth using Nat.strongRecOn generalizing ref ref' objects l with
  | ind depth ih =>
    intro pages' hg hs
    have hcov := leaves_covers _ hl
    have hup := endsFrom_upward hcov.tiles effective
    rw [trimPageRef.eq_def] at h
    split at h
    · rename_i hle
      simp only [reads_ok] at h
      obtain ⟨rfl, rfl⟩ := h
      rw [filter_endsFrom_self hcov hle]
      exact ⟨rfl, leaves_mono hg _ (le_refl _) hl⟩
    split at h
    · simp at h
    obtain ⟨h0, page, hp, rfl⟩ | ⟨h0, d, page, ls, rfl, hp, hls, rfl⟩ := leaves_cases.1 hl
    · -- a leaf is sealed again without the entries that were cut
      rw [if_pos h0] at h
      simp only [reads_ok, hp, checks_ok, Except.ok.injEq, exists_eq_left', Prod.exists] at h
      obtain ⟨_, trimmed, object, hseal, rfl, rfl⟩ := h
      rw [show page.entries.drop (searchList page.entries fun e => decide (e.lastLSN ≥ effective)) =
        page.entries.filter (endsFrom effective) from drop_searchList_filter _ hup] at hseal
      obtain ⟨hlevel, hleaves⟩ := sealLeaf_leaves depth hseal (hs object List.mem_cons_self) (le_refl _)
      exact ⟨hlevel.trans h0.symm, hleaves⟩
    · -- an index page is sealed again over the trimmed first child and the later children
      have hload := loadIndex_loaded hp
      have hsum : ∀ r m, leaves config pages d r page.header.writerEpoch = .ok m →
          Summary (endsFrom effective) (fun r : IndexEntry => decide (r.seqHi ≥ effective)) r m :=
        fun _ _ hx => covers_summary_lsn (leaves_covers _ hx) rfl effective
      rw [if_neg h0] at h
      dsimp only at h
      simp only [eval_bind, hp, bind_ok, Except.ok.injEq, exists_eq_left'] at h
      rw [drop_searchList_filter _ (upward_summaries (hls.imp hsum) hup)] at h
      rcases filter_groups hsum hls hup with ⟨hnone, _⟩ | ⟨first, rest, m, ms, hfirst, hrest, hkept, hflat⟩
      · rw [hnone] at h
        simp at h
      rw [hkept] at h
      simp only [reads_ok, checks_ok, Prod.exists] at h
      obtain ⟨first', objs, htrim, _, trimmed, object, hseal, rfl, rfl⟩ := h
      have hmem : first ∈ page.entries := List.mem_of_mem_filter (hkept ▸ List.mem_cons_self)
      have hflevel := hload.child_level hmem
      have hup' : page.header.writerEpoch ≤ writerEpoch := hload.epoch
      have hfirst' := leaves_mono (fun _ _ hx => hx) d hup' hfirst
      have hhead : leaves config pages' d first' writerEpoch = .ok (m.filter (endsFrom effective)) := by
        split at htrim
        · exact (ih d (Nat.lt_succ_self d) (by omega) hfirst' htrim pages' hg
            (fun o ho => hs o (List.mem_append_left _ ho))).2
        · rename_i hge
          simp only [reads_ok] at htrim
          obtain ⟨rfl, rfl⟩ := htrim
          rw [filter_endsFrom_self (leaves_covers _ hfirst) (not_lt.1 hge)]
          exact leaves_mono hg d (le_refl _) hfirst'
      have hchildren : List.Forall₂ (fun c x => leaves config pages' d c writerEpoch = .ok x) (first' :: rest)
          (m.filter (endsFrom effective) :: ms) :=
        .cons hhead (hrest.imp fun _ _ hx => leaves_mono hg d hup' hx)
      have hobj := hs object (List.mem_append_right _ List.mem_cons_self)
      obtain ⟨hlevel, hleaves⟩ := sealIndex_leaves hseal hobj (le_refl _) hchildren
      rw [List.flatten_cons, ← hflat] at hleaves
      exact ⟨hlevel, hleaves⟩

/-! ## Sections -/

theorem trimSection_spec {s s' : OpenIndexSection}
    (hl : Holds config pages writerEpoch s.entries l) (hup : Upward (endsFrom effective) l)
    (h : eval pages (trimSection config effective generation writerEpoch s) = .ok (s', objects))
    (hg : Grows pages pages') (hs : Stored pages' objects) :
    Holds config pages' writerEpoch s'.entries (l.filter (endsFrom effective)) := by
  obtain ⟨ls, hls, rfl⟩ := hl
  have hsum : ∀ r m, leaves config pages r.level.toNat r writerEpoch = .ok m →
      Summary (endsFrom effective) (fun r : IndexEntry => decide (r.seqHi ≥ effective)) r m :=
    fun _ _ hx => covers_summary_lsn (leaves_covers _ hx) rfl effective
  unfold trimSection at h
  rw [drop_searchList_filter _ (upward_summaries (hls.imp hsum) hup)] at h
  rcases filter_groups hsum hls hup with ⟨hnone, hflat⟩ | ⟨first, rest, m, ms, hfirst, hrest, hkept, hflat⟩
  · rw [hnone] at h
    simp only [reads_ok] at h
    obtain ⟨rfl, rfl⟩ := h
    rw [hflat]
    exact holds_nil.2 rfl
  · rw [hkept] at h
    have hlater : Holds config pages' writerEpoch rest ms.flatten :=
      Holds.mono hg (le_refl _) ⟨ms, hrest, rfl⟩
    rw [hflat]
    dsimp only at h
    split at h
    · simp only [reads_ok, bind_ok, Prod.exists] at h
      obtain ⟨first', objs, htrim, rfl, rfl⟩ := h
      obtain ⟨hlevel, hleaves⟩ := trimPageRef_spec _ rfl hfirst htrim pages' hg hs
      exact holds_cons.2 ⟨_, _, hlevel ▸ hleaves, hlater, rfl⟩
    · rename_i hge
      simp only [reads_ok] at h
      obtain ⟨rfl, rfl⟩ := h
      rw [filter_endsFrom_self (leaves_covers _ hfirst) (not_lt.1 hge)]
      exact holds_cons.2 ⟨_, _, leaves_mono hg _ (le_refl _) hfirst, hlater, rfl⟩

theorem trimSections_spec {ss ss' : List OpenIndexSection}
    (hl : Holds config pages writerEpoch (sectionRefs ss) l) (hup : Upward (endsFrom effective) l)
    (h : eval pages (trimSections config effective generation writerEpoch ss) = .ok (ss', objects))
    (hg : Grows pages pages') (hs : Stored pages' objects) :
    Holds config pages' writerEpoch (sectionRefs ss') (l.filter (endsFrom effective)) := by
  induction ss generalizing ss' objects l with
  | nil =>
    simp only [trimSections, reads_ok] at h
    obtain ⟨rfl, rfl⟩ := h
    obtain rfl := holds_nil.1 hl
    exact holds_nil.2 rfl
  | cons s ss ih =>
    simp only [trimSections, reads_ok, bind_ok, Prod.exists] at h
    obtain ⟨t, objs, hsec, ts, more, hrest, rfl, rfl⟩ := h
    rw [sectionRefs_cons] at hl ⊢
    obtain ⟨a, b, ha, hb, rfl⟩ := holds_append.1 hl
    obtain ⟨hupa, hupb, _⟩ := Upward.append_iff.1 hup
    rw [List.filter_append]
    exact holds_append.2 ⟨_, _, ih ha hupa hrest (fun o ho => hs o (List.mem_append_right _ ho)),
      trimSection_spec hb hupb hsec hg (fun o ho => hs o (List.mem_append_left _ ho)), rfl⟩

omit [Hashes] in
/-- Dropping empty sections at the end drops no reference. -/
theorem sectionRefs_dropEmptyTail (ss : List OpenIndexSection) : sectionRefs (dropEmptyTail ss) = sectionRefs ss := by
  unfold sectionRefs dropEmptyTail
  rw [List.reverse_reverse]
  induction ss.reverse with
  | nil => rfl
  | cons s rs ih =>
    rw [List.dropWhile_cons]
    split
    · rename_i hempty
      rw [List.flatMap_cons, List.isEmpty_iff.1 hempty, ih]
      rfl
    · rfl

/-! ## The head -/

/-- What `trimHead` returns: the same header and last segment over a suffix of the history. -/
theorem trimHead_spec {head' : Head} (hl : flat config pages head = .ok l)
    (hup : Upward (endsFrom effective) l) (h : eval pages (trimHead config effective head) = .ok (head', objects))
    (hg : Grows pages pages') (hs : Stored pages' objects) :
    head'.header = head.header ∧ head'.lastSegment = head.lastSegment ∧
      flat config pages' head' = .ok (l.filter (endsFrom effective)) := by
  simp only [trimHead, reads_ok, checks_ok, Prod.exists] at h
  obtain ⟨ss, objs, htrim, _, rfl, rfl⟩ := h
  obtain ⟨a, ha, rfl⟩ := flat_iff_holds.1 hl
  obtain ⟨hupa, hupact, _⟩ := Upward.append_iff.1 hup
  refine ⟨rfl, rfl, flat_iff_holds.2 ⟨a.filter (endsFrom effective), ?_, ?_⟩⟩
  · rw [sectionRefs_dropEmptyTail]
    exact trimSections_spec ha hupa htrim hg hs
  · rw [List.filter_append]
    exact congrArg _ (drop_searchList_filter _ hupact)

/-! ## Applying retention -/

theorem findFlat_some {lsn : UInt64} {segment : SegmentRef} (h : findFlat config lsn l = some segment) :
    ∃ e ∈ l, segment = config.segmentRef e ∧ e.baseLSN ≤ lsn ∧ lsn ≤ e.lastLSN := by
  unfold findFlat at h
  obtain ⟨e, he, ha⟩ := Option.bind_eq_some_iff.1 h
  have hends := List.find?_some he
  unfold answerAt at ha
  split at ha
  · simp at ha
  · rename_i hbase
    simp only [endsFrom, ge_iff_le, decide_eq_true_eq] at hends
    exact ⟨e, List.mem_of_find?_eq_some he, (Option.some.inj ha).symm, not_lt.1 hbase, hends⟩

omit [Hashes] in
/-- Cutting inside a segment keeps the whole segment: the same entries stay as when cutting at its base. -/
theorem filter_endsFrom_base (h : LsnTiles a b l) {e : LeafEntry} (he : e ∈ l)
    (hlo : e.baseLSN ≤ target) (hhi : target ≤ e.lastLSN) :
    l.filter (endsFrom target) = l.filter (endsFrom e.baseLSN) := by
  refine List.filter_congr fun x hx => ?_
  rw [le_iff_toNat_le] at hlo hhi
  simp only [endsFrom, ge_iff_le, decide_eq_decide, le_iff_toNat_le]
  constructor
  · intro hx'
    omega
  · intro hx'
    by_contra hlt
    -- `x` would end inside `e`, so it is `e`, which ends at the target or later
    have hxb := h.mem_bounds hx
    have := h.unique (k := x.lastLSN.toNat) hx he ⟨hxb.2.1, Nat.le_refl _⟩ ⟨hx', by omega⟩
    subst this
    omega

omit [Hashes] in
theorem filter_endsFrom_nil (h : LsnTiles a b l) (hb : b ≤ target.toNat) : l.filter (endsFrom target) = [] := by
  refine List.filter_eq_nil_iff.2 fun e he => ?_
  have := h.mem_bounds he
  simp only [endsFrom, ge_iff_le, decide_eq_true_eq, le_iff_toNat_le]
  omega

omit [Hashes] in
theorem filter_endsFrom_all (h : LsnTiles a b l) (ha : target.toNat ≤ a) : l.filter (endsFrom target) = l := by
  refine List.filter_eq_self.2 fun e he => ?_
  have := h.mem_bounds he
  simp only [endsFrom, ge_iff_le, decide_eq_true_eq, le_iff_toNat_le]
  omega

/-- Header fields a cut does not change. -/
structure SameButOldest (a b : HeadHeader) : Prop where
  eq : b = { a with oldestLSN := b.oldestLSN, reachableSegmentCount := b.reachableSegmentCount }

/-- What is left after a cut, whichever way it is made. `next` is the head being
built: it has the old head's history and the same epoch. -/
theorem cutHistory_spec {next next' : Head} (hi : Inv config pages head l) (hnext : flat config pages next = .ok l)
    (h : eval pages (cutHistory config head next target) = .ok (next', objects))
    (hg : Grows pages pages') (hs : Stored pages' objects) :
    SameButOldest next.header next'.header ∧ next'.lastSegment = next.lastSegment ∧
      flat config pages' next' = .ok (l.filter (endsFrom target)) := by
  have hflat_mono : flat config pages' next = .ok l := by
    obtain ⟨a, ha, rfl⟩ := flat_iff_holds.1 hnext
    exact flat_iff_holds.2 ⟨a, ha.mono hg (le_refl _), rfl⟩
  unfold cutHistory at h
  split at h
  · -- nothing lies before the boundary
    rename_i hle
    simp only [reads_ok] at h
    obtain ⟨rfl, rfl⟩ := h
    rw [filter_endsFrom_all hi.tiles (le_iff_toNat_le.1 hle)]
    exact ⟨⟨rfl⟩, rfl, hflat_mono⟩
  split at h
  · -- everything lies before it
    rename_i hge
    simp only [reads_ok] at h
    obtain ⟨rfl, rfl⟩ := h
    rw [filter_endsFrom_nil hi.tiles (le_iff_toNat_le.1 hge)]
    exact ⟨⟨rfl⟩, rfl, rfl⟩
  · rename_i hgt hlt
    simp only [eval_bind, findSegment_eq hi, bind_ok, Except.ok.injEq, exists_eq_left'] at h
    split at h
    · simp at h
    · rename_i segment hfound
      have hfind : findFlat config target l = some segment := by
        split at hfound
        · simp at hfound
        · exact hfound
      obtain ⟨e, he, rfl, hlo, hhi⟩ := findFlat_some hfind
      rw [filter_endsFrom_base hi.tiles he hlo hhi]
      have hbase : (config.segmentRef e).baseLSN = e.baseLSN := rfl
      simp only [hbase] at h
      split at h
      · simp only [reads_ok, bind_ok, Prod.exists] at h
        obtain ⟨trimmed, objs, htrim, rfl, rfl⟩ := h
        obtain ⟨hhead, hlast, hflat⟩ := trimHead_spec hnext (endsFrom_upward hi.tiles _) htrim hg hs
        exact ⟨⟨by rw [hhead]⟩, hlast, hflat⟩
      · rename_i hold
        simp only [reads_ok] at h
        obtain ⟨rfl, rfl⟩ := h
        rw [filter_endsFrom_all hi.tiles (le_iff_toNat_le.1 (not_lt.1 hold))]
        exact ⟨⟨rfl⟩, rfl, hflat_mono⟩

/-- What a newer policy changes. -/
structure RetentionApplied (config : Config) (head : Head) (before version : UInt64) (m : Mutation) : Prop where
  newer : head.header.appliedRetentionVersion < version
  notBehind : head.header.appliedRetentionLSN ≤ before
  generation : head.header.generation < m.head.header.generation
  header : m.head.header = { head.header with
    generation := head.header.generation + 1
    appliedRetentionLSN := retentionTarget head before
    appliedRetentionVersion := version
    oldestLSN := m.head.header.oldestLSN
    activeCount := m.head.header.activeCount
    levelCount := m.head.header.levelCount
    reachableSegmentCount := m.head.header.reachableSegmentCount }
  last : m.head.lastSegment = head.lastSegment

theorem applyRetention_spec {before version : UInt64} {m : Mutation} (hi : Inv config pages head l)
    (h : eval pages (applyRetention config head before version) = .ok m) (hg : Grows pages pages')
    (hs : Stored pages' m.pages) : marshalHead m.head = .ok m.headBody ∧
    ((m.head = head ∧ version = head.header.appliedRetentionVersion ∧ m.pages = []) ∨
      (RetentionApplied config head before version m ∧
        flat config pages' m.head = .ok (l.filter (endsFrom (retentionTarget head before))))) := by
  simp only [applyRetention, reads_ok, checks_ok] at h
  obtain ⟨_, _, _, h⟩ := h
  split at h
  · rename_i hsame
    simp only [reads_ok, bind_ok] at h
    obtain ⟨body, hm, rfl⟩ := h
    exact ⟨hm, .inl ⟨rfl, hsame.1, rfl⟩⟩
  · simp only [reads_ok, checks_ok, Prod.exists] at h
    obtain ⟨hv, hb, hgen, next, objs, hcut, n, _, body, hm, rfl⟩ := h
    -- recording the policy does not touch the history
    have hstart : flat config pages (retentionHead head (retentionTarget head before) version) = .ok l := by
      obtain ⟨a, ha, rfl⟩ := flat_iff_holds.1 hi.contents
      exact flat_iff_holds.2 ⟨a, ha, rfl⟩
    obtain ⟨hsame, hlast, hflat⟩ := cutHistory_spec hi hstart hcut hg hs
    have hheader := hsame.eq
    have hgeneration : next.header.generation = head.header.generation + 1 := by rw [hheader]; rfl
    refine ⟨hm, .inr ⟨⟨UInt64.not_le.1 hv, not_lt.1 hb, ?_, ?_, hlast⟩, ?_⟩⟩
    · change head.header.generation < next.header.generation
      rw [hgeneration]
      exact lt_succ_of_ne_max hgen
    · change (recount next n).header = _
      simp only [recount]
      rw [hheader]
      rfl
    · obtain ⟨b, hb', hbe⟩ := flat_iff_holds.1 hflat
      exact flat_iff_holds.2 ⟨b, hb', hbe⟩

theorem applyRetention_inv {before version : UInt64} {m : Mutation} (hi : Inv config pages head l)
    (h : eval pages (applyRetention config head before version) = .ok m) (hg : Grows pages pages')
    (hs : Stored pages' m.pages) : ∃ k, Inv config pages' m.head k ∧
      (version > head.header.appliedRetentionVersion → k = l.filter (endsFrom (retentionTarget head before))) := by
  obtain ⟨hm, ⟨hsame, hver, _⟩ | ⟨ha, hflat⟩⟩ := applyRetention_spec hi h hg hs
  · refine ⟨l, ?_, fun hgt => absurd hgt (by rw [hver]; exact UInt64.lt_irrefl _)⟩
    rw [hsame]
    obtain ⟨a, ha, rfl⟩ := flat_iff_holds.1 hi.contents
    exact { hi with contents := flat_iff_holds.2 ⟨a, ha.mono hg (le_refl _), rfl⟩ }
  · -- what stays is a suffix, so order and last entry carry over
    have hup := endsFrom_upward hi.tiles (retentionTarget head before)
    have hdrop := drop_searchList_filter l hup
    have hepoch : m.head.header.writerEpoch = head.header.writerEpoch := by rw [ha.header]
    refine ⟨_, ⟨?_, marshalHead_valid hm, hflat, ?_, fun e he => ?_, fun e he => ?_⟩, fun _ => rfl⟩
    · rw [validateConfigHead_ok, ha.header]
      exact validateConfigHead_ok.1 hi.identity
    · rw [← hdrop]
      exact hi.epochs.drop _
    · rw [hepoch]
      exact hi.epochMax e (List.mem_of_mem_filter he)
    · rw [ha.last]
      rw [← hdrop, List.getLast?_drop] at he
      split at he
      · simp at he
      · exact hi.last e he

end ObjLog.Catengine
