import ObjLog.Blob.Paths
import ObjLog.Catengine.PagePaths
/-!
# Reachability of one page

`IsPageReachable` descends only where the level and the bounds of its target
allow. A page lies inside the bounds of every page above it, and its key gives
its level and bounds away, so nothing that could match is skipped.
-/

namespace ObjLog.Catengine

open Lib Catformat Pmeta Blobstore

section
variable [Hashes] {config : Config} {pages : Pages} {target : PageTarget} {e : UInt64}

/-- References with the target's key have the target's level and bounds. -/
def Aims (config : Config) (target : PageTarget) : Prop :=
  ∀ r : IndexEntry, r.level.toNat ≤ maxIndexLevel → config.pagePath r = target.key →
    r.level = target.level ∧ r.seqLo = target.seqLo ∧ r.seqHi = target.seqHi

/-- Whether the target is among references of its level. -/
def hits (config : Config) (target : PageTarget) (rs : List IndexEntry) : Bool :=
  rs.any fun r => decide (config.pagePath r = target.key)

theorem hits_flatten (rss : List (List IndexEntry)) : hits config target rss.flatten = rss.any (hits config target) := by
  simp only [hits, List.any_flatten]
  rfl

omit [Hashes] in
/-- A loop that answers at each element ends with the first true answer. -/
theorem eval_anyReachable {α : Type} {body : α → M Bool} {f : List IndexEntry → Bool} {as : List α}
    {rss : List (List IndexEntry)} (h : List.Forall₂ (fun a rs => eval pages (body a) = .ok (f rs)) as rss) :
    eval pages (anyReachable body as) = .ok (rss.any f) := by
  induction h with
  | nil => rfl
  | @cons a rs as rss ha _ ih =>
    rw [anyReachable, eval_bind, ha]
    change eval pages (if f rs then pure true else anyReachable body as) = _
    cases hf : f rs with
    | true => simp [hf]
    | false => simpa [hf] using ih

/-- Outside the bounds of a reference the target is not below it. -/
theorem hits_outside {depth : Nat} {ref : IndexEntry} {rs : List IndexEntry} (ha : Aims config target)
    (hlevel : target.level.toNat ≤ maxIndexLevel) (h : RefsBelow config pages target.level depth ref e rs)
    (hout : target.seqHi < ref.seqLo ∨ target.seqLo > ref.seqHi) : hits config target rs = false := by
  rw [hits, List.any_eq_false]
  intro r hr hkey
  obtain ⟨_, hlo, hhi⟩ := ha r (by rw [h.levels r hr]; exact hlevel) (of_decide_eq_true hkey)
  have hb := h.tiles.mem_bounds hr
  rw [← hlo, ← hhi, gt_iff_lt, UInt64.lt_iff_toNat_lt, UInt64.lt_iff_toNat_lt] at hout
  omega

/-- The descent finds the target exactly if it is among the references of its level. -/
theorem pageReachable_eq (ha : Aims config target) (hlevel : target.level.toNat ≤ maxIndexLevel) (depth : Nat)
    {ref : IndexEntry} {l : List LeafEntry} {rs : List IndexEntry}
    (h : leaves config pages depth ref e = .ok l) (hdepth : ref.level.toNat = depth) (hmax : depth ≤ maxIndexLevel)
    (hrs : refsAt config pages target.level depth ref e = .ok rs) :
    eval pages (pageReachable config target depth ref e) = .ok (hits config target rs) := by
  induction depth using Nat.strongRecOn generalizing ref e l rs with
  | ind depth ih =>
    rw [pageReachable.eq_def]
    by_cases hkey : config.pagePath ref = target.key
    · obtain ⟨heq, _⟩ := ha ref (hdepth ▸ hmax) hkey
      obtain rfl : [ref] = rs := Except.ok.inj ((refsAt_cases.2 (.inr (.inl ⟨heq, rfl⟩))).symm.trans hrs)
      rw [if_pos hkey]
      simp [hits, hkey]
    · rw [if_neg hkey]
      obtain ⟨hlt, rfl⟩ | ⟨heq, rfl⟩ | ⟨hgt, d, page, rss, rfl, hp, hrss, rfl⟩ := refsAt_cases.1 hrs
      · rw [if_pos (.inr (.inr (.inl (UInt8.le_of_lt hlt))))]
        rfl
      · rw [if_pos (.inr (.inr (.inl (UInt8.le_of_eq heq))))]
        simp [hits, hkey]
      · -- the level lies below
        obtain ⟨rs', hbelow⟩ := refsAt_of_leaves target.level (d + 1) h hdepth (UInt8.le_of_lt hgt)
        obtain rfl : rs' = rss.flatten := Except.ok.inj (hbelow.reads.symm.trans hrs)
        split
        · rename_i hprune
          have hout : target.seqHi < ref.seqLo ∨ target.seqLo > ref.seqHi := by
            rcases hprune with ho | ho | ho | ho
            · exact .inl ho
            · exact .inr ho
            · exact absurd hgt (UInt8.not_lt.2 ho)
            · rw [ho] at hdepth
              cases hdepth
          rw [hits_outside ha hlevel hbelow hout]
          rfl
        · obtain ⟨h0, _⟩ | ⟨_, d', page', ls, hd, hp', hls, rfl⟩ := leaves_cases.1 h
          · rw [h0] at hdepth
            cases hdepth
          · obtain rfl := Nat.succ.inj hd
            obtain rfl : page = page' := Except.ok.inj (hp.symm.trans hp')
            rw [eval_bind, hp, hits_flatten]
            refine eval_anyReachable ((forall₂_with_mem hrss).imp fun c m ⟨hc, hm⟩ => ?_)
            have hcl := (loadIndex_loaded hp).child_level hc
            have hgt' := UInt8.lt_iff_toNat_lt.1 hgt
            have hcd : c.level.toNat = d := by omega
            obtain ⟨x, _, hx⟩ := forall₂_mem_left hls hc
            obtain ⟨m', hm'⟩ := refsAt_of_leaves target.level d hx hcd (UInt8.le_iff_toNat_le.2 (by omega))
            obtain rfl : m' = m := Except.ok.inj (hm'.reads.symm.trans hm)
            by_cases hout : target.seqHi < c.seqLo ∨ target.seqLo > c.seqHi
            · rw [if_pos hout, hits_outside ha hlevel hm' hout]
              rfl
            · rw [if_neg hout]
              exact ih d (Nat.lt_succ_self d) hx hcd (Nat.le_of_succ_le hmax) hm

/-- From a head, the target is found exactly if some reachable reference has its key. -/
theorem Inv.isPageReachable {head : Head} {l : List LeafEntry} (h : Inv config pages head l) (ha : Aims config target)
    (hkey : target.key ≠ "") (hlevel : target.level.toNat ≤ maxIndexLevel) (hrange : target.seqLo ≤ target.seqHi) :
    ∃ b, eval pages (isPageReachable config head target) = .ok b ∧
      (b = true ↔ ∃ r e, RefBelow config pages head r e ∧ config.pagePath r = target.key) := by
  obtain ⟨ls, hls, _⟩ := h.roots
  obtain ⟨rss, hrss⟩ := h.rootRefs target.level
  refine ⟨hits config target rss.flatten, ?_, ?_⟩
  · have hvalid : ¬ (target.key = "" ∨ target.level.toNat > maxIndexLevel ∨ target.seqHi < target.seqLo) := by
      rintro (hk | hl | hr)
      · exact hkey hk
      · exact absurd hl (Nat.not_lt.2 hlevel)
      · exact absurd hr (UInt64.not_lt.2 hrange)
    simp only [Catengine.isPageReachable, reads_ok, failIf, if_neg hvalid, h.identity]
    rw [hits_flatten]
    refine eval_anyReachable ((forall₂_with_mem hrss).imp fun root m hboth => ?_)
    obtain ⟨hroot, hm⟩ := hboth
    cases root with
    | leaf e =>
      obtain rfl : [] = m := Except.ok.inj hm.reads
      rfl
    | ref r =>
      obtain ⟨x, _, hx⟩ := forall₂_mem_left hls hroot
      exact pageReachable_eq ha hlevel _ hx.2 rfl (h.level_le (.root (ref_mem_headRoots.1 hroot))) hm.reads
  · have hmem := mem_pagesAt (pagesAt_of_rootRefs hrss)
    simp only [hits, List.any_eq_true, decide_eq_true_eq]
    constructor
    · rintro ⟨r, hr, hk⟩
      obtain ⟨_, e, hb⟩ := (hmem r).1 hr
      exact ⟨r, e, hb, hk⟩
    · rintro ⟨r, e, hb, hk⟩
      exact ⟨r, (hmem r).2 ⟨(ha r (h.level_le hb) hk).1, e, hb⟩, hk⟩

/-! ## The highest level -/

omit [Hashes] in
theorem foldl_maxLevel (rs : List IndexEntry) (m : UInt8) :
    let top := rs.foldl (fun m ref => if ref.level > m then ref.level else m) m
    m ≤ top ∧ (∀ r ∈ rs, r.level ≤ top) ∧ (top = m ∨ ∃ r ∈ rs, r.level = top) := by
  induction rs generalizing m with
  | nil => exact ⟨UInt8.le_refl _, by simp, .inl rfl⟩
  | cons r rs ih =>
    obtain ⟨hle, hall, hsome⟩ := ih (if r.level > m then r.level else m)
    have hr : r.level ≤ (if r.level > m then r.level else m) ∧ m ≤ (if r.level > m then r.level else m) := by
      split
      · exact ⟨UInt8.le_refl _, UInt8.le_of_lt ‹_›⟩
      · exact ⟨UInt8.not_lt.1 ‹_›, UInt8.le_refl _⟩
    refine ⟨UInt8.le_trans hr.2 hle, ?_, ?_⟩
    · intro x hx
      rcases List.mem_cons.1 hx with rfl | hx
      · exact UInt8.le_trans hr.1 hle
      · exact hall x hx
    · rcases hsome with htop | ⟨x, hx, hxl⟩
      · rw [List.foldl_cons, htop]
        split
        · exact .inr ⟨r, List.mem_cons_self, rfl⟩
        · exact .inl rfl
      · exact .inr ⟨x, List.mem_cons_of_mem _ hx, hxl⟩

omit [Hashes] in
theorem mem_sectionRefs {ss : List OpenIndexSection} {r : IndexEntry} :
    r ∈ sectionRefs ss ↔ r ∈ ss.flatMap (·.entries) := by
  simp [sectionRefs]

/-- Every page lies at or below the level of a root above it. -/
theorem RefBelow.level_le_root {head : Head} {r : IndexEntry} (h : RefBelow config pages head r e) :
    r.level ≤ maxPageLevel head := by
  induction h with
  | root hmem => exact (foldl_maxLevel _ 0).2.1 _ (mem_sectionRefs.1 hmem)
  | @child ref c e page _ _ hp hc ih =>
    have hcl := (loadIndex_loaded hp).child_level hc
    exact UInt8.le_trans (UInt8.le_iff_toNat_le.2 (by omega)) ih

/-- The key of a page decides whether it is reachable: the search for a key that parses finds it exactly if a
reachable reference has it. The level reported is the highest of any reachable page. -/
theorem reachable_page_keys {catalogPrefix dataRoot streamID : String} {partition leafLimit indexLimit : UInt32}
    {hashAlgo : HashAlgo} {head : Head}
    (hconfig : newConfig catalogPrefix dataRoot streamID partition leafLimit indexLimit hashAlgo = .ok config)
    (h : Reachable config pages head) : (∀ key k, Blob.parsePagePath catalogPrefix streamID partition key = .ok k →
      ∃ b, eval pages (isPageReachable config head ⟨k.key, k.level, k.seqLo, k.seqHi⟩) = .ok b ∧
        (b = true ↔ ∃ r e, RefBelow config pages head r e ∧ config.pagePath r = key)) ∧
    (∀ r e, RefBelow config pages head r e → r.level ≤ maxPageLevel head) ∧
    ((∃ r e, RefBelow config pages head r e ∧ r.level = maxPageLevel head) ∨
      ((∀ r e, ¬ RefBelow config pages head r e) ∧ maxPageLevel head = 0)) := by
  obtain ⟨l, hi⟩ := h.inv
  refine ⟨fun key k hk => ?_, fun r e hb => hb.level_le_root, ?_⟩
  · obtain ⟨rfl, hne, hlevel, hrange⟩ := Blob.parsePagePath_fields hk
    refine hi.isPageReachable (fun r hr hpath => ?_) hne hlevel hrange
    have hroot := Blob.partitionPrefix_eq hconfig
    rw [← show config.pagePath r = k.key from hpath] at hk
    obtain ⟨_, _, hkr⟩ := (Blob.parsePagePath_pagePath hroot hr).1 hk
    rw [hkr]
    exact ⟨rfl, rfl, rfl⟩
  · obtain ⟨_, _, htop | ⟨r, hr, hrl⟩⟩ := foldl_maxLevel (head.sections.flatMap (·.entries)) 0
    · cases hrs : sectionRefs head.sections with
      | nil =>
        refine .inr ⟨fun r e hb => ?_, htop⟩
        induction hb with
        | root hmem => simp [hrs] at hmem
        | child _ _ _ _ ih => exact ih
      | cons r rs =>
        -- a page of level zero
        have hb : RefBelow config pages head r head.header.writerEpoch := .root (hrs ▸ List.mem_cons_self)
        have hle := hb.level_le_root
        refine .inl ⟨r, _, hb, ?_⟩
        rw [show maxPageLevel head = 0 from htop] at hle ⊢
        exact UInt8.toNat_inj.1 (Nat.le_zero.1 (UInt8.le_iff_toNat_le.1 hle))
    · exact .inl ⟨r, _, .root (mem_sectionRefs.2 hr), hrl⟩

end

/-- The leaf sealed by the first append of the sample. -/
def Sample.leafKey : String := (Sample.one.pages.map (·.key)).headD ""

set_option maxRecDepth 20000 in
/-- That leaf is found below the index page sealed by the second append. -/
theorem reachable_page_keys_leaf : letI := Sample.hashes
    ∃ k, Blob.parsePagePath "c" "" 0 Sample.leafKey = .ok k ∧
      eval Sample.store (isPageReachable Sample.config Sample.two.head ⟨k.key, k.level, k.seqLo, k.seqHi⟩) = .ok true ∧
      ∃ r e, RefBelow Sample.config Sample.store Sample.two.head r e ∧ Sample.config.pagePath r = Sample.leafKey := by
  let _ := Sample.hashes
  have hconfig : newConfig "c" "d" "" 0 1 2 .crc32c = .ok Sample.config := by decide +kernel
  let none : Blob.PageObjectKey := ⟨"", .leaf, 0, 0, 0, 0, ""⟩
  have hk : Blob.parsePagePath "c" "" 0 Sample.leafKey = .ok (Sample.value none (Blob.parsePagePath "c" "" 0 Sample.leafKey)) :=
    Sample.eq_ok _ (by decide +kernel)
  obtain ⟨hkeys, _⟩ := reachable_page_keys hconfig Sample.reachable_two
  obtain ⟨b, hb, hiff⟩ := hkeys _ _ hk
  obtain rfl : b = true := by
    have hval : Sample.value false (eval Sample.store (isPageReachable Sample.config Sample.two.head
        (let k := Sample.value none (Blob.parsePagePath "c" "" 0 Sample.leafKey)
         ⟨k.key, k.level, k.seqLo, k.seqHi⟩))) = true := by decide +kernel
    rwa [hb] at hval
  exact ⟨_, hk, hb, hiff.1 rfl⟩

end ObjLog.Catengine
