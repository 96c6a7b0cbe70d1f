import ObjLog.Catengine.PagePaths
/-!
# The pages a mutation writes

An append carries one page up from level to level; retention rewrites the pages
on one path down to its boundary. Either way the new tree is the old one with a
chain of new pages in it (`Rewrites`): each new page lists old references and
new pages of the level below, and each is reached from a root.
-/

namespace ObjLog.Catengine

open Lib Catformat Pmeta Blobstore
open List (mem_append mem_append_left mem_cons_of_mem mem_cons_self mem_singleton)

variable {object : PageObject} {head : Head} {objects : List PageObject} {Known : IndexEntry → Prop}

variable {r ref : IndexEntry} {ss ss' : List OpenIndexSection} {e effective : UInt64} {l : List LeafEntry}

section
variable [Hashes] {config : Config} {pages pages' : Pages} {generation epoch : UInt64} {Old : IndexEntry → Prop}
  {roots : List IndexEntry} {objects : List PageObject}

/-- Reached from the roots through new pages only. -/
inductive Linked (config : Config) (pages : Pages) (epoch : UInt64) (roots : List IndexEntry)
    (objects : List PageObject) : IndexEntry → Prop
  | root {r : IndexEntry} : r ∈ roots → Linked config pages epoch roots objects r
  | child {o : PageObject} {page : IndexPage} {c : IndexEntry} : o ∈ objects →
      Linked config pages epoch roots objects o.ref → o.ref.level ≠ 0 →
      eval pages (loadIndex config o.ref epoch) = .ok page → c ∈ page.entries →
      Linked config pages epoch roots objects c

/-- A page as it was sealed; `Known` holds of what it lists. -/
structure Wrote (config : Config) (pages : Pages) (generation epoch : UInt64) (Known : IndexEntry → Prop)
    (o : PageObject) : Prop where
  key : o.key = config.pagePath o.ref
  level : o.level = o.ref.level
  generation : o.ref.generation = generation
  children : o.ref.level ≠ 0 → ∃ page, eval pages (loadIndex config o.ref epoch) = .ok page ∧
    page.header.writerEpoch = epoch ∧ ∀ c ∈ page.entries, Known c

structure Rewrites (config : Config) (pages : Pages) (generation epoch : UInt64) (Old : IndexEntry → Prop)
    (roots : List IndexEntry) (objects : List PageObject) : Prop where
  known : ∀ r ∈ roots, Old r ∨ r ∈ objects.map (·.ref)
  wrote : ∀ o ∈ objects, Wrote config pages generation epoch (fun c => Old c ∨ c ∈ objects.map (·.ref)) o
  linked : ∀ o ∈ objects, Linked config pages epoch roots objects o.ref
  levels : objects.Pairwise fun a b => a.level.toNat < b.level.toNat

theorem Linked.mono {roots' : List IndexEntry} {objects' : List PageObject}
    (h : Linked config pages epoch roots objects r) (hr : roots ⊆ roots') (ho : objects ⊆ objects') :
    Linked config pages epoch roots' objects' r := by
  induction h with
  | root hmem => exact .root (hr hmem)
  | child hobj _ h0 hp hc ih => exact .child (ho hobj) ih h0 hp hc

theorem Wrote.mono {Known' : IndexEntry → Prop} {o : PageObject} (h : Wrote config pages generation epoch Known o)
    (hk : ∀ c, Known c → Known' c) : Wrote config pages generation epoch Known' o := by
  refine ⟨h.key, h.level, h.generation, fun h0 => ?_⟩
  obtain ⟨page, hp, he, hc⟩ := h.children h0
  exact ⟨page, hp, he, fun c hmem => hk c (hc c hmem)⟩

/-- Nothing new. -/
theorem Rewrites.same (h : ∀ r ∈ roots, Old r) : Rewrites config pages generation epoch Old roots [] :=
  ⟨fun r hr => .inl (h r hr), by simp, by simp, .nil⟩

/-- More old roots. -/
theorem Rewrites.roots_append (h : Rewrites config pages generation epoch Old roots objects) (more : List IndexEntry)
    (hm : ∀ r ∈ more, Old r) : Rewrites config pages generation epoch Old (roots ++ more) objects := by
  refine ⟨fun r hr => ?_, h.wrote, fun o ho => (h.linked o ho).mono (List.subset_append_left _ _) (List.Subset.refl _),
    h.levels⟩
  rcases mem_append.1 hr with hr | hr
  · exact h.known r hr
  · exact .inl (hm r hr)

theorem Rewrites.mono {Old' : IndexEntry → Prop} (h : Rewrites config pages generation epoch Old roots objects)
    (ho : ∀ r, Old r → Old' r) : Rewrites config pages generation epoch Old' roots objects :=
  ⟨fun r hr => (h.known r hr).imp_left (ho r), fun o hobj => (h.wrote o hobj).mono fun c hc => hc.imp_left (ho c),
    h.linked, h.levels⟩

/-- One more page below the others, which took it for an old one. -/
theorem Rewrites.prepend {Mid : IndexEntry → Prop}
    (h : Rewrites config pages generation epoch (fun r => Mid r ∨ r = object.ref) roots objects)
    (hm : ∀ r, Mid r → Old r)
    (hw : Wrote config pages generation epoch (fun c => Old c ∨ c ∈ (object :: objects).map (·.ref)) object)
    (hl : Linked config pages epoch roots objects object.ref)
    (hlev : ∀ o ∈ objects, object.level.toNat < o.level.toNat) :
    Rewrites config pages generation epoch Old roots (object :: objects) := by
  have hstep : ∀ r, ((Mid r ∨ r = object.ref) ∨ r ∈ objects.map (·.ref)) →
      Old r ∨ r ∈ (object :: objects).map (·.ref) := by
    rintro r ((hr | rfl) | hr)
    · exact .inl (hm r hr)
    · exact .inr mem_cons_self
    · exact .inr (mem_cons_of_mem _ hr)
  have hup : ∀ {r}, Linked config pages epoch roots objects r → Linked config pages epoch roots (object :: objects) r :=
    fun hr => hr.mono (List.Subset.refl _) (List.subset_cons_self _ _)
  refine ⟨fun r hr => hstep r (h.known r hr), ?_, ?_, List.pairwise_cons.2 ⟨hlev, h.levels⟩⟩
  · intro o ho
    rcases List.mem_cons.1 ho with rfl | ho
    · exact hw
    · exact (h.wrote o ho).mono hstep
  · intro o ho
    rcases List.mem_cons.1 ho with rfl | ho
    · exact hup hl
    · exact hup (h.linked o ho)

/-! ## Sealing -/

theorem sealLeaf_wrote {entries : List LeafEntry} (h : sealLeaf config generation epoch entries = .ok (ref, object)) :
    Wrote config pages generation epoch Known object := by
  obtain ⟨header, hl, _, _, _, hgen, hr, hkey, _⟩ := sealLeaf_ok h
  obtain ⟨rfl, hlevel⟩ := sealLeaf_object h
  have hzero : object.ref.level = 0 := by rw [hr]; exact hl
  refine ⟨?_, hlevel.trans hzero.symm, ?_, fun h0 => absurd hzero h0⟩
  · rw [hkey, Config.pagePath, if_pos hzero]
  · rw [hr]
    exact hgen

theorem sealIndex_wrote {level : UInt8} {entries : List IndexEntry}
    (h : sealIndex config generation epoch level entries = .ok (ref, object))
    (hs : pages object.key = some object.body) (hk : ∀ c ∈ entries, Known c) :
    object.ref = ref ∧ object.level = level ∧ Wrote config pages generation epoch Known object ∧
      ∃ page, ref.level ≠ 0 ∧ eval pages (loadIndex config ref epoch) = .ok page ∧ page.entries = entries := by
  obtain ⟨header, hl, hp, hstream, hw, hgen, hr, hkey, hm⟩ := sealIndex_ok h
  obtain ⟨rfl, hlevel⟩ := sealIndex_object h
  have hparse := parse_marshalIndexPage hm
  have hpos : object.ref.level ≠ 0 := by rw [hr]; exact (parseIndexPage_valid hparse).level_pos
  have hload : eval pages (loadIndex config object.ref epoch) = .ok ⟨header, entries⟩ := by
    refine loadIndex_ok.2 ⟨object.body, hkey ▸ hs, hparse, hw ▸ UInt64.le_refl _, ?_⟩
    rw [hr]
    exact matchesPageRef_refOf hp hstream
  refine ⟨rfl, hlevel, ⟨?_, ?_, ?_, fun _ => ⟨_, hload, hw, hk⟩⟩, _, hpos, hload, rfl⟩
  · rw [hkey, Config.pagePath, if_neg hpos]
  · rw [hlevel, hr]
    exact hl.symm
  · rw [hr]
    exact hgen

/-- One more page above the others: it lists what were the roots. -/
theorem Rewrites.cap {level : UInt8} {entries : List IndexEntry}
    (h : Rewrites config pages generation epoch Old entries objects)
    (hseal : sealIndex config generation epoch level entries = .ok (ref, object))
    (hs : pages object.key = some object.body) (hlev : ∀ o ∈ objects, o.level.toNat < level.toNat) :
    Rewrites config pages generation epoch Old [ref] (objects ++ [object]) ∧ object.level = level := by
  have hstep : ∀ r, (Old r ∨ r ∈ objects.map (·.ref)) → Old r ∨ r ∈ (objects ++ [object]).map (·.ref) := by
    rintro r (hr | hr)
    · exact .inl hr
    · exact .inr (by rw [List.map_append]; exact mem_append_left _ hr)
  obtain ⟨rfl, hlevel, hwrote, page, hpos, hload, rfl⟩ := sealIndex_wrote hseal hs fun c hc => hstep c (h.known c hc)
  have htop : object ∈ objects ++ [object] := List.mem_append_right _ mem_cons_self
  have hlink : ∀ {r}, Linked config pages epoch page.entries objects r →
      Linked config pages epoch [object.ref] (objects ++ [object]) r := by
    intro r hr
    induction hr with
    | root hmem => exact .child htop (.root mem_cons_self) hpos hload hmem
    | child ho _ h0 hp hc ih => exact .child (mem_append_left _ ho) ih h0 hp hc
  refine ⟨⟨?_, ?_, ?_, List.pairwise_append.2 ⟨h.levels, by simp, ?_⟩⟩, hlevel⟩
  · intro r hr
    rw [mem_singleton.1 hr]
    exact .inr (List.mem_map_of_mem htop)
  · intro o ho
    rcases mem_concat.1 ho with ho | rfl
    · exact (h.wrote o ho).mono hstep
    · exact hwrote
  · intro o ho
    rcases mem_append.1 ho with ho | ho
    · exact hlink (h.linked o ho)
    · exact .root (by rw [mem_singleton.1 ho]; exact mem_cons_self)
  · intro a ha b hb
    rw [mem_singleton.1 hb, hlevel]
    exact hlev a ha

/-! ## Carrying -/

omit [Hashes] in
theorem SplitAt.mem_refs {lower upper : List OpenIndexSection} {i : Nat} {s : OpenIndexSection}
    (h : SplitAt ss i lower s upper) (r : IndexEntry) :
    (r ∈ sectionRefs ss ↔ r ∈ sectionRefs upper ∨ r ∈ s.entries ∨ r ∈ sectionRefs lower) ∧
      ∀ es, r ∈ sectionRefs (Catengine.setEntries ss i es) ↔
        r ∈ sectionRefs upper ∨ r ∈ es ∨ r ∈ sectionRefs lower := by
  refine ⟨?_, fun es => ?_⟩
  · rw [h.eq, sectionRefs_append, sectionRefs_cons]
    simp
  · rw [h.setEntries, sectionRefs_append, sectionRefs_cons]
    simp

/-- A pushed reference ends up below a root, through the pages sealed on the way. -/
theorem push_rewrites (fuel : Nat) {level : Nat}
    (h : push config generation epoch fuel level ref ss = .ok (ss', objects))
    (hs : Stored pages objects) :
    Rewrites config pages generation epoch (fun r => r ∈ sectionRefs ss ∨ r = ref) (sectionRefs ss') objects ∧
      Linked config pages epoch (sectionRefs ss') objects ref ∧ ∀ o ∈ objects, level ≤ o.level.toNat := by
  induction fuel generalizing level ref ss ss' objects with
  | zero => simp [push] at h
  | succ fuel ih =>
    simp only [push, checks_ok, not_or, Nat.not_lt, gt_iff_lt] at h
    obtain ⟨⟨hpos, hmax⟩, _, h⟩ := h
    obtain ⟨lower, s, upper, hsplit⟩ := exists_splitAt_grow hpos ss
    rw [hsplit.entries] at h
    have hold : ∀ r, r ∈ sectionRefs ss ↔ r ∈ sectionRefs upper ∨ r ∈ s.entries ∨ r ∈ sectionRefs lower := by
      intro r
      rw [← sectionRefs_grow level]
      exact (hsplit.mem_refs r).1
    have hset := fun r => (hsplit.mem_refs r).2
    split at h
    · -- the section has room
      simp only [pure_ok, Prod.mk.injEq] at h
      obtain ⟨rfl, rfl⟩ := h
      refine ⟨.same fun r hr => ?_, .root ?_, by simp⟩
      · rw [hset] at hr
        rw [hold]
        simp only [mem_append, mem_singleton] at hr
        grind
      · rw [hset]
        simp
    · -- the section is sealed and its page carried to the next level
      simp only [checks_ok, Prod.exists] at h
      obtain ⟨parent, object, hseal, ss1, rest, hpush, rfl, rfl⟩ := h
      obtain ⟨hrest, hparent, hlevels⟩ := ih hpush fun o ho => hs o (mem_cons_of_mem _ ho)
      have hknown : ∀ c ∈ s.entries ++ [ref], (c ∈ sectionRefs ss ∨ c = ref) ∨
          c ∈ (object :: rest).map (·.ref) := by
        intro c hc
        rcases mem_append.1 hc with hc | hc
        · exact .inl (.inl ((hold c).2 (.inr (.inl hc))))
        · exact .inl (.inr (mem_singleton.1 hc))
      obtain ⟨rfl, hobj, hwrote, page, hpos', hload, hentries⟩ :=
        sealIndex_wrote hseal (hs object mem_cons_self) hknown
      have hlevel : object.level.toNat = level := by
        rw [hobj]
        simp only [maxOpenIndexLevel, maxIndexLevel] at hmax
        exact UInt8.toNat_ofNat_of_lt' (by simp only [UInt8.size]; omega)
      refine ⟨hrest.prepend (fun r hr => ?_) hwrote hparent fun o ho => ?_, ?_, ?_⟩
      · rw [hset] at hr
        rw [hold]
        simp only [List.not_mem_nil, false_or] at hr
        grind
      · have := hlevels o ho
        omega
      · refine .child mem_cons_self (hparent.mono (List.Subset.refl _) (List.subset_cons_self _ _)) hpos' hload ?_
        rw [hentries]
        simp
      · intro o ho
        rcases List.mem_cons.1 ho with rfl | ho
        · exact Nat.le_of_eq hlevel.symm
        · exact Nat.le_of_succ_le (hlevels o ho)

/-- What an append writes: a full active list becomes a leaf, which is pushed. -/
theorem place_rewrites {header : HeadHeader} {active active' : List LeafEntry}
    (h : place config header active ss = .ok (active', ss', objects))
    (hs : Stored pages objects) :
    Rewrites config pages header.generation header.writerEpoch (· ∈ sectionRefs ss) (sectionRefs ss') objects := by
  unfold place at h
  split at h
  · simp only [checks_ok, Prod.exists] at h
    obtain ⟨ref, object, hseal, ss1, rest, hpush, rfl, rfl, rfl⟩ := h
    obtain ⟨rfl, hlevel⟩ := sealLeaf_object hseal
    obtain ⟨hrest, hlinked, hlevels⟩ := push_rewrites pushFuel hpush fun o ho => hs o (mem_cons_of_mem _ ho)
    refine hrest.prepend (fun r hr => hr) (sealLeaf_wrote hseal) hlinked fun o ho => ?_
    rw [hlevel]
    exact Nat.lt_of_lt_of_le (by decide) (hlevels o ho)
  · simp only [pure_ok, Prod.mk.injEq] at h
    obtain ⟨_, rfl, rfl⟩ := h
    exact .same fun r hr => hr

/-! ## Trimming -/

/-- The references of a tree. -/
def InTree (config : Config) (pages : Pages) (head : Head) (r : IndexEntry) : Prop :=
  ∃ e, RefBelow config pages head r e

/-- Epoch bounds only fall on the way down. -/
theorem RefBelow.epoch_le (h : RefBelow config pages head r e) : e ≤ head.header.writerEpoch := by
  induction h with
  | root _ => exact UInt64.le_refl _
  | child _ _ hp _ ih => exact UInt64.le_trans (loadIndex_loaded hp).epoch ih

/-- What a page of the tree lists is in the tree, under whatever bound the page was loaded. -/
theorem Inv.inTree_child (hi : Inv config pages head l) {c : IndexEntry}
    {page : IndexPage} (h : InTree config pages head ref) (h0 : ref.level ≠ 0)
    (hp : eval pages (loadIndex config ref head.header.writerEpoch) = .ok page) (hc : c ∈ page.entries) :
    InTree config pages head c := by
  obtain ⟨e, hb⟩ := h
  obtain ⟨m, hm⟩ := hi.below hb
  obtain ⟨hz, _⟩ | ⟨_, _, page', _, _, hp', _⟩ := leaves_cases.1 hm
  · exact absurd hz h0
  · have hsame := loadIndex_mono (fun _ _ hx => hx) hb.epoch_le hp'
    obtain rfl : page = page' := Except.ok.inj (hp.symm.trans hsame)
    exact ⟨_, .child hb h0 hp' hc⟩

/-- Trimming writes one page at each level from the boundary up. -/
theorem trimPageRef_rewrites (hi : Inv config pages head l)
    (depth : Nat) {ref' : IndexEntry} (hdepth : ref.level.toNat = depth)
    (hb : InTree config pages head ref)
    (h : eval pages (trimPageRef config effective generation head.header.writerEpoch depth ref) = .ok (ref', objects))
    (hs : Stored pages' objects) :
    Rewrites config pages' generation head.header.writerEpoch (InTree config pages head) [ref'] objects ∧
      ∀ o ∈ objects, o.level.toNat ≤ depth := by
  induction depth using Nat.strongRecOn generalizing ref ref' objects with
  | ind depth ih =>
    rw [trimPageRef.eq_def] at h
    split at h
    · simp only [reads_ok] at h
      obtain ⟨rfl, rfl⟩ := h
      exact ⟨.same fun r hr => mem_singleton.1 hr ▸ hb, by simp⟩
    split at h
    · simp at h
    split at h
    · -- a leaf
      simp only [reads_ok, checks_ok, Prod.exists] at h
      obtain ⟨page, _, _, trimmed, object, hseal, rfl, rfl⟩ := h
      obtain ⟨rfl, hlevel⟩ := sealLeaf_object hseal
      refine ⟨⟨by simp, fun o ho => ?_, fun o ho => ?_, by simp⟩, fun o ho => ?_⟩
      · rw [mem_singleton.1 ho]
        exact sealLeaf_wrote hseal
      · rw [mem_singleton.1 ho]
        exact .root mem_cons_self
      · rw [mem_singleton.1 ho, hlevel]
        exact Nat.zero_le _
    · rename_i h0
      cases depth with
      | zero => exact absurd (UInt8.toNat_inj.1 hdepth) h0
      | succ d =>
        dsimp only at h
        simp only [eval_bind, bind_ok] at h
        obtain ⟨page, hp, h⟩ := h
        have hload := loadIndex_loaded hp
        -- what stays of the page is a part of what it lists
        have hkept : ∀ c ∈ page.entries.drop (searchList page.entries fun e => decide (e.seqHi ≥ effective)),
            InTree config pages head c := fun c hc => hi.inTree_child hb h0 hp (List.mem_of_mem_drop hc)
        have hlower : ∀ c ∈ page.entries.drop (searchList page.entries fun e => decide (e.seqHi ≥ effective)),
            c.level.toNat = d := by
          intro c hc
          have := hload.child_level (List.mem_of_mem_drop hc)
          omega
        split at h
        · simp at h
        · rename_i first rest hdrop
          rw [hdrop] at hkept hlower
          simp only [reads_ok, checks_ok, Prod.exists] at h
          obtain ⟨first', objs, htrim, _, trimmed, object, hseal, rfl, rfl⟩ := h
          have hfirst : Rewrites config pages' generation head.header.writerEpoch (InTree config pages head) [first']
              objs ∧ ∀ o ∈ objs, o.level.toNat ≤ d := by
            split at htrim
            · exact ih d (Nat.lt_succ_self d) (hlower first mem_cons_self) (hkept first mem_cons_self) htrim
                fun o ho => hs o (mem_append_left _ ho)
            · simp only [reads_ok] at htrim
              obtain ⟨rfl, rfl⟩ := htrim
              exact ⟨.same fun r hr => mem_singleton.1 hr ▸ hkept _ mem_cons_self, by simp⟩
          have hall := hfirst.1.roots_append rest fun r hr => hkept r (mem_cons_of_mem _ hr)
          obtain ⟨hcap, hlevel⟩ := hall.cap hseal (hs object (List.mem_append_right _ mem_cons_self))
            fun o ho => by have := hfirst.2 o ho; omega
          refine ⟨hcap, fun o ho => ?_⟩
          rcases mem_concat.1 ho with ho | rfl
          · exact Nat.le_succ_of_le (hfirst.2 o ho)
          · rw [hlevel, hdepth]

/-- The boundary lies inside the page. -/
def Straddles (effective : UInt64) (r : IndexEntry) : Prop := r.seqLo < effective ∧ effective ≤ r.seqHi

section
variable (hi : Inv config pages head l)
include hi

/-- A section is rewritten only where one of its pages straddles the boundary. -/
theorem trimSection_rewrites {s s' : OpenIndexSection} (hb : ∀ r ∈ s.entries, InTree config pages head r)
    (h : eval pages (trimSection config effective generation head.header.writerEpoch s) = .ok (s', objects))
    (hs : Stored pages' objects) :
    Rewrites config pages' generation head.header.writerEpoch (InTree config pages head) s'.entries objects ∧
      (objects ≠ [] → ∃ r ∈ s.entries, Straddles effective r) := by
  have hkept : ∀ c ∈ s.entries.drop (searchList s.entries fun e => decide (e.seqHi ≥ effective)),
      c ∈ s.entries := fun c hc => List.mem_of_mem_drop hc
  unfold trimSection at h
  split at h
  · simp only [reads_ok] at h
    obtain ⟨rfl, rfl⟩ := h
    exact ⟨.same (by simp), fun hne => absurd rfl hne⟩
  · rename_i first rest hdrop
    rw [hdrop] at hkept
    split at h
    · rename_i hlo
      simp only [reads_ok, bind_ok, Prod.exists] at h
      obtain ⟨first', objs, htrim, rfl, rfl⟩ := h
      have hmem := hkept first mem_cons_self
      obtain ⟨hr, _⟩ := trimPageRef_rewrites hi _ rfl (hb first hmem) htrim hs
      refine ⟨hr.roots_append rest fun r hr => hb r (hkept r (mem_cons_of_mem _ hr)), fun _ => ⟨first, hmem, hlo, ?_⟩⟩
      rw [trimPageRef.eq_def] at htrim
      split at htrim
      · exact absurd hlo (UInt64.not_lt.2 ‹_›)
      split at htrim
      · simp at htrim
      · exact UInt64.not_lt.1 ‹_›
    · simp only [reads_ok] at h
      obtain ⟨rfl, rfl⟩ := h
      exact ⟨.same fun r hr => hb r (hkept r hr), fun hne => absurd rfl hne⟩

/-- Roots do not overlap, so at most one section is rewritten. -/
theorem trimSections_rewrites (hb : ∀ r ∈ sectionRefs ss, InTree config pages head r)
    (hord : (sectionRefs ss).Pairwise fun a b => a.seqHi.toNat < b.seqLo.toNat)
    (h : eval pages (trimSections config effective generation head.header.writerEpoch ss) = .ok (ss', objects))
    (hs : Stored pages' objects) :
    Rewrites config pages' generation head.header.writerEpoch (InTree config pages head) (sectionRefs ss') objects ∧
      (objects ≠ [] → ∃ r ∈ sectionRefs ss, Straddles effective r) := by
  induction ss generalizing ss' objects with
  | nil =>
    simp only [trimSections, reads_ok] at h
    obtain ⟨rfl, rfl⟩ := h
    exact ⟨.same (by simp [sectionRefs]), fun hne => absurd rfl hne⟩
  | cons s ss ih =>
    simp only [trimSections, reads_ok, bind_ok, Prod.exists] at h
    obtain ⟨t, objs, hsec, ts, more, hrest, rfl, rfl⟩ := h
    rw [sectionRefs_cons] at hb hord
    obtain ⟨hord', _, hcross⟩ := List.pairwise_append.1 hord
    obtain ⟨hone, hstr⟩ := trimSection_rewrites hi (fun r hr => hb r (List.mem_append_right _ hr)) hsec
      fun o ho => hs o (mem_append_left _ ho)
    obtain ⟨hmany, hstrs⟩ := ih (fun r hr => hb r (mem_append_left _ hr)) hord' hrest
      fun o ho => hs o (List.mem_append_right _ ho)
    rw [sectionRefs_cons, sectionRefs_cons]
    by_cases hobjs : objs = []
    · subst hobjs
      refine ⟨hmany.roots_append _ fun r hr => ?_, fun hne => ?_⟩
      · exact (hone.known r hr).elim id (by simp)
      · obtain ⟨r, hr, hrs⟩ := hstrs hne
        exact ⟨r, mem_append_left _ hr, hrs⟩
    · -- another page across the boundary would overlap this one
      obtain ⟨x, hx, hxs⟩ := hstr hobjs
      have hmore : more = [] := by
        by_contra hne
        obtain ⟨y, hy, hys⟩ := hstrs hne
        have := hcross y hy x hx
        have hlo := UInt64.lt_iff_toNat_lt.1 hxs.1
        have hhi := UInt64.le_iff_toNat_le.1 hys.2
        omega
      subst hmore
      rw [List.append_nil]
      refine ⟨⟨fun r hr => ?_, hone.wrote, fun o ho => ?_, hone.levels⟩, fun _ => ⟨x, List.mem_append_right _ hx, hxs⟩⟩
      · rcases mem_append.1 hr with hr | hr
        · exact .inl ((hmany.known r hr).elim id (by simp))
        · exact hone.known r hr
      · exact (hone.linked o ho).mono (List.subset_append_right _ _) (List.Subset.refl _)

theorem Inv.refs_ordered : (sectionRefs head.sections).Pairwise fun a b => a.seqHi.toNat < b.seqLo.toNat := by
  obtain ⟨b, ht⟩ := hi.rootTiles
  have hroots : headRoots head = (sectionRefs head.sections).map .ref ++ head.active.map .leaf := by
    simp [headRoots, sectionRefs, List.map_flatMap]
  have hp := ht.pairwise
  rw [hroots] at hp
  exact List.pairwise_map.1 (List.pairwise_append.1 hp).1

/-- What retention writes. -/
theorem cutHistory_rewrites {next next' : Head} {target : UInt64} (hsec : next.sections = head.sections)
    (hepoch : next.header.writerEpoch = head.header.writerEpoch)
    (h : eval pages (cutHistory config head next target) = .ok (next', objects)) (hs : Stored pages' objects) :
    Rewrites config pages' next.header.generation head.header.writerEpoch (InTree config pages head)
      (sectionRefs next'.sections) objects := by
  have hold : ∀ r ∈ sectionRefs head.sections, InTree config pages head r := fun r hr => ⟨_, .root hr⟩
  unfold cutHistory at h
  split at h
  · simp only [reads_ok] at h
    obtain ⟨rfl, rfl⟩ := h
    exact .same (hsec ▸ hold)
  split at h
  · simp only [reads_ok] at h
    obtain ⟨rfl, rfl⟩ := h
    exact .same (by simp [sectionRefs])
  · simp only [eval_bind, findSegment_eq hi, bind_ok, Except.ok.injEq, exists_eq_left'] at h
    split at h
    · simp at h
    split at h
    · simp only [trimHead, reads_ok, checks_ok, Prod.exists] at h
      obtain ⟨_, _, ⟨ss, objs, htrim, _, rfl, rfl⟩, rfl, rfl⟩ := h
      rw [hsec, hepoch] at htrim
      dsimp only
      rw [sectionRefs_dropEmptyTail]
      exact (trimSections_rewrites hi hold hi.refs_ordered htrim hs).1
    · simp only [reads_ok] at h
      obtain ⟨rfl, rfl⟩ := h
      exact .same (hsec ▸ hold)

end

/-! ## The new tree -/

/-- A key holds one page. -/
theorem loadIndex_det {e' : UInt64} {page page' : IndexPage} (hg : Grows pages pages')
    (h : eval pages (loadIndex config ref e) = .ok page) (h' : eval pages' (loadIndex config ref e') = .ok page') :
    page = page' := by
  obtain ⟨body, hb, hp, _⟩ := loadIndex_ok.1 h
  obtain ⟨body', hb', hp', _⟩ := loadIndex_ok.1 h'
  obtain rfl := Option.some.inj ((hg _ _ hb).symm.trans hb')
  exact (Prod.mk.inj (Except.ok.inj (hp.symm.trans hp'))).1

/-- Every reference of the new tree is an old one or that of a new page. -/
theorem Rewrites.old_or_new {head' : Head} (hi : Inv config pages head l) (hg : Grows pages pages')
    (h : Rewrites config pages' generation head.header.writerEpoch (InTree config pages head)
      (sectionRefs head'.sections) objects) (hr : RefBelow config pages' head' r e) :
    InTree config pages head r ∨ r ∈ objects.map (·.ref) := by
  induction hr with
  | root hmem => exact h.known _ hmem
  | @child ref c e page _ h0 hp hc ih =>
    rcases ih with ⟨e₀, hb⟩ | hnew
    · obtain ⟨m, hm⟩ := hi.below hb
      obtain ⟨hz, _⟩ | ⟨_, _, page', _, _, hp', _⟩ := leaves_cases.1 hm
      · exact absurd hz h0
      · obtain rfl := loadIndex_det hg hp' hp
        exact .inl ⟨_, .child hb h0 hp' hc⟩
    · obtain ⟨o, ho, rfl⟩ := List.mem_map.1 hnew
      obtain ⟨page', hp', _, hknown⟩ := (h.wrote o ho).children h0
      obtain rfl := loadIndex_det (Grows.refl pages') hp' hp
      exact hknown c hc

/-- Every new page is reached from the new head. -/
theorem Rewrites.reached {head' : Head}
    (h : Rewrites config pages' generation head'.header.writerEpoch (InTree config pages head)
      (sectionRefs head'.sections) objects)
    (hr : Linked config pages' head'.header.writerEpoch (sectionRefs head'.sections) objects r) :
    RefBelow config pages' head' r head'.header.writerEpoch := by
  induction hr with
  | root hmem => exact .root hmem
  | @child o page c ho _ h0 hp hc ih =>
    obtain ⟨page', hp', hepoch, _⟩ := (h.wrote o ho).children h0
    obtain rfl := loadIndex_det (Grows.refl pages') hp' hp
    rw [← hepoch]
    exact .child ih h0 hp hc

/-- The operations that write pages. -/
def Rewriting (config : Config) (pages : Pages) (head : Head) (m : Mutation) : Prop :=
  (∃ segment, append config head segment = .ok m) ∨
    ∃ before version, eval pages (applyRetention config head before version) = .ok m ∧
      m.head.header.generation ≠ head.header.generation

theorem Rewriting.rewrites {m : Mutation} (hi : Inv config pages head l)
    (hg : Grows pages pages') (hs : Stored pages' m.pages) (h : Rewriting config pages head m) :
    m.head.header.writerEpoch = head.header.writerEpoch ∧
      Rewrites config pages' m.head.header.generation head.header.writerEpoch (InTree config pages head)
        (sectionRefs m.head.sections) m.pages := by
  have hold : ∀ r, r ∈ sectionRefs head.sections → InTree config pages head r := fun r hr => ⟨_, .root hr⟩
  rcases h with ⟨segment, ha⟩ | ⟨before, version, hr, hne⟩
  · obtain ⟨active, ss, _, hp, hhead, _⟩ := append_ok ha
    rw [hhead]
    exact ⟨rfl, (place_rewrites hp hs).mono hold⟩
  · simp only [applyRetention, reads_ok, checks_ok] at hr
    obtain ⟨_, _, _, hr⟩ := hr
    split at hr
    · simp only [reads_ok, bind_ok] at hr
      obtain ⟨_, _, rfl⟩ := hr
      exact absurd rfl hne
    · simp only [reads_ok, checks_ok, Prod.exists] at hr
      obtain ⟨_, _, _, next, objs, hcut, n, _, body, _, rfl⟩ := hr
      have hstart : flat config pages (retentionHead head (retentionTarget head before) version) = .ok l := by
        obtain ⟨a, ha, rfl⟩ := flat_iff_holds.1 hi.contents
        exact flat_iff_holds.2 ⟨a, ha, rfl⟩
      obtain ⟨hsame, _⟩ := cutHistory_spec hi hstart hcut hg hs
      have hheader := hsame.eq
      have hgen : next.header.generation = (retentionHead head (retentionTarget head before) version).header.generation := by
        rw [hheader]
      have hepoch : next.header.writerEpoch = head.header.writerEpoch := by
        rw [hheader]
        rfl
      refine ⟨hepoch, ?_⟩
      have hsec : (retentionHead head (retentionTarget head before) version).sections = head.sections := rfl
      have hcutR := cutHistory_rewrites hi hsec rfl hcut hs
      rw [← hgen] at hcutR
      exact hcutR

/-- The pages of a mutation are those of the new tree that the old one does not have: whatever the new tree refers to
is listed or was referred to before, unchanged; and each page listed is in the new tree, of the new generation, and
the only one of its level. -/
theorem reachable_page_set {head : Head} {m : Mutation} (h : Reachable config pages head) (hg : Grows pages pages')
    (hs : Stored pages' m.pages) (hop : Rewriting config pages head m) :
    (∀ r e, RefBelow config pages' m.head r e → (∃ o ∈ m.pages, o.key = config.pagePath r) ∨
      ∃ r' e', RefBelow config pages head r' e' ∧ config.pagePath r' = config.pagePath r) ∧
    (∀ o ∈ m.pages, o.key = config.pagePath o.ref ∧ o.level = o.ref.level ∧
      o.ref.generation = m.head.header.generation ∧ ∃ e, RefBelow config pages' m.head o.ref e) ∧
    m.pages.Pairwise (fun o o' => o.level ≠ o'.level) ∧
    ∀ r e, RefBelow config pages' m.head r e → (∀ o ∈ m.pages, o.key ≠ config.pagePath r) →
      ∃ e', RefBelow config pages head r e' := by
  obtain ⟨l, hi⟩ := h.inv
  obtain ⟨hepoch, hrw⟩ := hop.rewrites hi hg hs
  have hcases : ∀ r e, RefBelow config pages' m.head r e → (∃ o ∈ m.pages, o.key = config.pagePath r) ∨
      ∃ e', RefBelow config pages head r e' := by
    intro r e hr
    rcases hrw.old_or_new hi hg hr with hold | hnew
    · exact .inr hold
    · obtain ⟨o, ho, rfl⟩ := List.mem_map.1 hnew
      exact .inl ⟨o, ho, (hrw.wrote o ho).key⟩
  refine ⟨fun r e hr => ?_, fun o ho => ?_, ?_, fun r e hr hno => ?_⟩
  · rcases hcases r e hr with hlisted | ⟨e', hold⟩
    · exact .inl hlisted
    · exact .inr ⟨r, e', hold, rfl⟩
  · have hw := hrw.wrote o ho
    have hl := hrw.linked o ho
    rw [← hepoch] at hrw hl
    exact ⟨hw.key, hw.level, hw.generation, _, hrw.reached hl⟩
  · refine hrw.levels.imp fun hlt heq => ?_
    rw [heq] at hlt
    exact Nat.lt_irrefl _ hlt
  · rcases hcases r e hr with ⟨o, ho, hkey⟩ | hold
    · exact absurd hkey (hno o ho)
    · exact hold

end

/-- The second append of the sample seals a leaf and an index page. -/
theorem reachable_page_set_two : letI := Sample.hashes
    Sample.two.pages.length = 2 ∧ Sample.two.pages.Pairwise (fun o o' => o.level ≠ o'.level) ∧
      ∀ o ∈ Sample.two.pages, ∃ e, RefBelow Sample.config Sample.store Sample.two.head o.ref e := by
  let _ := Sample.hashes
  obtain ⟨_, hpages, hlevels, _⟩ := reachable_page_set Sample.reachable_one
    (Sample.pagesOf_grows Sample.one.pages Sample.two.pages) Sample.stored_two (.inl ⟨_, Sample.two_ok⟩)
  exact ⟨by decide +kernel, hlevels, fun o ho => (hpages o ho).2.2.2⟩

end ObjLog.Catengine
