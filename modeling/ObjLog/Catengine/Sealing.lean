import ObjLog.Catengine.Invariant
/-!
# Sealed pages read back

Pages are stored under keys of their own and never replaced, so a store only
grows (`Grows`). Contents survive growth and a higher epoch bound, and a page
that was sealed and stored loads as what was sealed into it.
-/

namespace ObjLog.Catengine

open Lib Catformat Pmeta Blobstore

variable [Hashes] {entries : List IndexEntry}

variable {config : Config} {object : PageObject}

variable {pages pages' : Pages} {ref : IndexEntry} {e e' generation writerEpoch : UInt64} {level : UInt8}

/-- Every stored object is still there. -/
def Grows (pages pages' : Pages) : Prop := ∀ key body, pages key = some body → pages' key = some body

/-- The pages of a mutation are stored. -/
def Stored (pages : Pages) (objects : List PageObject) : Prop := ∀ o ∈ objects, pages o.key = some o.body

omit [Hashes] in
theorem Grows.refl (pages : Pages) : Grows pages pages := fun _ _ h => h

omit [Hashes] in
theorem Grows.trans {pages'' : Pages} (h : Grows pages pages') (h' : Grows pages' pages'') :
    Grows pages pages'' := fun _ _ hk => h' _ _ (h _ _ hk)

omit [Hashes] in
theorem Stored.mono {objects : List PageObject} (h : Stored pages objects)
    (hg : Grows pages pages') : Stored pages' objects := fun o ho => hg _ _ (h o ho)

/-! ## Contents survive -/

theorem loadLeaf_mono {page : LeafPage}
    (hg : Grows pages pages') (he : e ≤ e') (h : eval pages (loadLeaf config ref e) = .ok page) :
    eval pages' (loadLeaf config ref e') = .ok page := by
  obtain ⟨body, hb, hp, hep, hm⟩ := loadLeaf_ok.1 h
  exact loadLeaf_ok.2 ⟨body, hg _ _ hb, hp, UInt64.le_trans hep he, hm⟩

theorem loadIndex_mono {page : IndexPage}
    (hg : Grows pages pages') (he : e ≤ e') (h : eval pages (loadIndex config ref e) = .ok page) :
    eval pages' (loadIndex config ref e') = .ok page := by
  obtain ⟨body, hb, hp, hep, hm⟩ := loadIndex_ok.1 h
  exact loadIndex_ok.2 ⟨body, hg _ _ hb, hp, UInt64.le_trans hep he, hm⟩

theorem leaves_mono (hg : Grows pages pages') (depth : Nat)
    {l : List LeafEntry} (he : e ≤ e') (h : leaves config pages depth ref e = .ok l) :
    leaves config pages' depth ref e' = .ok l := by
  induction depth using Nat.strongRecOn generalizing ref e e' l with
  | ind depth ih =>
    rw [leaves_cases]
    obtain ⟨h0, page, hp, rfl⟩ | ⟨h0, d, page, ls, rfl, hp, hls, rfl⟩ := leaves_cases.1 h
    · exact .inl ⟨h0, page, loadLeaf_mono hg he hp, rfl⟩
    · refine .inr ⟨h0, d, page, ls, rfl, loadIndex_mono hg he hp, ?_, rfl⟩
      -- children are bounded by the page's own epoch, which did not change
      exact hls.imp fun _ _ hx => ih d (Nat.lt_succ_self d) (UInt64.le_refl _) hx

/-! ## Sealing -/

/-- What `sealLeaf` returns. -/
theorem sealLeaf_ok {entries : List LeafEntry}
    (h : sealLeaf config generation writerEpoch entries = .ok (ref, object)) :
    ∃ header, header.level = 0 ∧ header.partition = config.partition ∧ header.streamKey = config.streamKey ∧
      header.writerEpoch = writerEpoch ∧ header.generation = generation ∧ ref = refOf header ref.pageID ∧
      object.key = config.leafPagePath ref ∧ marshalLeafPage ⟨header, entries⟩ = .ok (object.body, ref.pageID) := by
  unfold sealLeaf at h
  split at h
  · simp only [checks_ok, Prod.exists] at h
    obtain ⟨body, id, hm, rfl, rfl⟩ := h
    exact ⟨_, rfl, rfl, rfl, rfl, rfl, rfl, rfl, hm⟩
  · simp at h

theorem sealIndex_ok (h : sealIndex config generation writerEpoch level entries = .ok (ref, object)) :
    ∃ header, header.level = level ∧ header.partition = config.partition ∧ header.streamKey = config.streamKey ∧
      header.writerEpoch = writerEpoch ∧ header.generation = generation ∧ ref = refOf header ref.pageID ∧
      object.key = config.indexPagePath ref ∧ marshalIndexPage ⟨header, entries⟩ = .ok (object.body, ref.pageID) := by
  unfold sealIndex at h
  split at h
  · simp only [checks_ok, Prod.exists] at h
    obtain ⟨n, _, body, id, hm, rfl, rfl⟩ := h
    exact ⟨_, rfl, rfl, rfl, rfl, rfl, rfl, rfl, hm⟩
  · simp at h

theorem sealLeaf_object {entries : List LeafEntry}
    (h : sealLeaf config generation writerEpoch entries = .ok (ref, object)) :
    object.ref = ref ∧ object.level = 0 := by
  unfold sealLeaf at h
  split at h
  · simp only [checks_ok, Prod.exists] at h
    obtain ⟨_, _, _, rfl, rfl⟩ := h
    exact ⟨rfl, rfl⟩
  · simp at h

theorem sealIndex_object (h : sealIndex config generation writerEpoch level entries = .ok (ref, object)) :
    object.ref = ref ∧ object.level = level := by
  unfold sealIndex at h
  split at h
  · simp only [checks_ok, Prod.exists] at h
    obtain ⟨_, _, _, _, _, rfl, rfl⟩ := h
    exact ⟨rfl, rfl⟩
  · simp at h

omit [Hashes] in
theorem matchesPageRef_refOf {header : PageHeader} {id : Arr 16}
    (hp : header.partition = config.partition) (hs : header.streamKey = config.streamKey) :
    matchesPageRef header (refOf header id) config = true :=
  matchesPageRef_iff.2 ⟨hp, hs, rfl, rfl, rfl, rfl, rfl, rfl, rfl, rfl⟩

/-- A stored leaf reads back as the entries sealed into it. -/
theorem sealLeaf_leaves {entries : List LeafEntry} (depth : Nat)
    (h : sealLeaf config generation writerEpoch entries = .ok (ref, object))
    (hs : pages object.key = some object.body) (he : writerEpoch ≤ e) :
    ref.level = 0 ∧ leaves config pages depth ref e = .ok entries := by
  obtain ⟨header, hl, hp, hk, hw, _, hr, hkey, hm⟩ := sealLeaf_ok h
  have hlevel : ref.level = 0 := by rw [hr]; exact hl
  refine ⟨hlevel, leaves_cases.2 (.inl ⟨hlevel, ⟨header, entries⟩, ?_, rfl⟩)⟩
  refine loadLeaf_ok.2 ⟨object.body, hkey ▸ hs, parse_marshalLeafPage hm, hw ▸ he, ?_⟩
  rw [hr]
  exact matchesPageRef_refOf hp hk

/-- A stored index page reads back as what its children hold. -/
theorem sealIndex_leaves {ls : List (List LeafEntry)} {depth : Nat}
    (h : sealIndex config generation writerEpoch level entries = .ok (ref, object))
    (hs : pages object.key = some object.body) (he : writerEpoch ≤ e)
    (hls : List.Forall₂ (fun c m => leaves config pages depth c writerEpoch = .ok m) entries ls) :
    ref.level = level ∧ leaves config pages (depth + 1) ref e = .ok ls.flatten := by
  obtain ⟨header, hl, hp, hk, hw, _, hr, hkey, hm⟩ := sealIndex_ok h
  have hparse := parse_marshalIndexPage hm
  have hlevel : ref.level = level := by rw [hr]; exact hl
  have hpos : ref.level ≠ 0 := by rw [hr]; exact (parseIndexPage_valid hparse).level_pos
  refine ⟨hlevel, leaves_cases.2 (.inr ⟨hpos, depth, ⟨header, entries⟩, ls, rfl, ?_, hw ▸ hls, rfl⟩)⟩
  refine loadIndex_ok.2 ⟨object.body, hkey ▸ hs, hparse, hw ▸ he, ?_⟩
  rw [hr]
  exact matchesPageRef_refOf hp hk

end ObjLog.Catengine
