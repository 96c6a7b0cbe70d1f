import ObjLog.Catengine.Sealing
/-!
# Carrying a sealed page upwards

`push` adds a reference to a section and, when the section is full, seals it
and pushes the result one level up, like a carry in a counter. The sections
below the one it works on are empty, so the reference is the newest history.
-/

namespace ObjLog.Catengine

open Lib Catformat Pmeta Blobstore

variable [Hashes]

variable {l : List LeafEntry} {ss lower upper : List OpenIndexSection} {i : Nat} {s : OpenIndexSection}

/-! ## What a list of references holds -/

/-- The references load, under this epoch bound, and hold `l` together. -/
def Holds (config : Config) (pages : Pages) (e : UInt64) (refs : List IndexEntry) (l : List LeafEntry) : Prop :=
  ∃ ls, List.Forall₂ (fun r m => leaves config pages r.level.toNat r e = .ok m) refs ls ∧ ls.flatten = l

section
variable {config : Config} {pages pages' : Pages} {e e' : UInt64}

@[simp] theorem holds_nil : Holds config pages e [] l ↔ l = [] := by
  constructor
  · rintro ⟨ls, hls, rfl⟩
    rw [List.forall₂_nil_left_iff.1 hls]
    rfl
  · rintro rfl
    exact ⟨[], .nil, rfl⟩

theorem holds_cons {r : IndexEntry} {rs : List IndexEntry} : Holds config pages e (r :: rs) l ↔
      ∃ a b, leaves config pages r.level.toNat r e = .ok a ∧ Holds config pages e rs b ∧ a ++ b = l := by
  constructor
  · rintro ⟨ls, hls, rfl⟩
    obtain ⟨m, ms, hm, hms, rfl⟩ := List.forall₂_cons_left_iff.1 hls
    exact ⟨m, ms.flatten, hm, ⟨ms, hms, rfl⟩, by simp⟩
  · rintro ⟨a, _, ha, ⟨ms, hms, rfl⟩, rfl⟩
    exact ⟨a :: ms, .cons ha hms, by simp⟩

theorem holds_single {r : IndexEntry} : Holds config pages e [r] l ↔ leaves config pages r.level.toNat r e = .ok l := by
  simp [holds_cons]

theorem holds_append {xs ys : List IndexEntry} :
    Holds config pages e (xs ++ ys) l ↔ ∃ a b, Holds config pages e xs a ∧ Holds config pages e ys b ∧ a ++ b = l := by
  induction xs generalizing l with
  | nil => simp
  | cons x xs ih =>
    simp only [List.cons_append, holds_cons, ih]
    constructor
    · rintro ⟨a, _, ha, ⟨b, c, hb, hc, rfl⟩, rfl⟩
      exact ⟨a ++ b, c, ⟨a, b, ha, hb, rfl⟩, hc, by simp⟩
    · rintro ⟨_, c, ⟨a, b, ha, hb, rfl⟩, hc, rfl⟩
      exact ⟨a, b ++ c, ha, ⟨b, c, hb, hc, rfl⟩, by simp⟩

theorem Holds.mono {refs : List IndexEntry} (hg : Grows pages pages') (he : e ≤ e')
    (h : Holds config pages e refs l) : Holds config pages' e' refs l := by
  obtain ⟨ls, hls, rfl⟩ := h
  exact ⟨ls, hls.imp fun _ _ hx => leaves_mono hg _ he hx, rfl⟩

end

/-! ## Sections -/

/-- The references of the sections, oldest first. -/
def sectionRefs (sections : List OpenIndexSection) : List IndexEntry := sections.reverse.flatMap (·.entries)

omit [Hashes] in
theorem sectionRefs_append (xs ys : List OpenIndexSection) :
    sectionRefs (xs ++ ys) = sectionRefs ys ++ sectionRefs xs := by
  simp [sectionRefs]

omit [Hashes] in
theorem sectionRefs_cons (s : OpenIndexSection) (ss : List OpenIndexSection) :
    sectionRefs (s :: ss) = sectionRefs ss ++ s.entries := by
  simp [sectionRefs]

omit [Hashes] in
/-- Empty sections hold nothing. -/
theorem sectionRefs_eq_nil (h : ∀ s ∈ ss, s.entries = []) : sectionRefs ss = [] := by
  simp only [sectionRefs, List.flatMap_eq_nil_iff, List.mem_reverse]
  exact h

omit [Hashes] in
theorem sectionRefs_grow (level : Nat) (ss : List OpenIndexSection) :
    sectionRefs (growSections level ss) = sectionRefs ss := by
  rw [growSections, sectionRefs_append, sectionRefs_eq_nil]
  · rfl
  · intro s hs
    obtain ⟨n, _, rfl⟩ := List.mem_map.1 hs
    rfl

omit [Hashes] in
theorem length_growSections (level : Nat) (ss : List OpenIndexSection) :
    (growSections level ss).length = max ss.length level := by
  simp only [growSections, List.length_append, List.length_map, List.length_range']
  omega

/-- The section at `i`, with the ones below it and above it. -/
structure SplitAt (ss : List OpenIndexSection) (i : Nat) (lower : List OpenIndexSection) (s : OpenIndexSection)
    (upper : List OpenIndexSection) : Prop where
  eq : ss = lower ++ s :: upper
  index : lower.length = i

omit [Hashes] in
theorem exists_splitAt (h : i < ss.length) : ∃ lower s upper, SplitAt ss i lower s upper :=
  ⟨ss.take i, ss[i], ss.drop (i + 1), by rw [← List.drop_eq_getElem_cons h, List.take_append_drop], by simp; omega⟩

omit [Hashes] in
theorem exists_splitAt_grow (h : level ≠ 0) (ss : List OpenIndexSection) :
    ∃ lower s upper, SplitAt (growSections level ss) (level - 1) lower s upper :=
  exists_splitAt (by rw [length_growSections]; omega)

omit [Hashes] in
theorem SplitAt.entries (h : SplitAt ss i lower s upper) : (ss[i]?.map (·.entries)).getD [] = s.entries := by
  obtain ⟨rfl, rfl⟩ := h
  simp

omit [Hashes] in
theorem SplitAt.setEntries (h : SplitAt ss i lower s upper) (es : List IndexEntry) :
    setEntries ss i es = lower ++ { s with entries := es } :: upper := by
  obtain ⟨rfl, rfl⟩ := h
  unfold Catengine.setEntries
  induction lower with
  | nil => rfl
  | cons x xs ih => simpa using ih

/-- Section `j` holds references to pages of level `j`. -/
def Leveled (ss : List OpenIndexSection) : Prop :=
  ∀ (j : Nat) (s : OpenIndexSection), ss[j]? = some s → ∀ r ∈ s.entries, r.level.toNat = j

/-- The sections below index `i` are empty. -/
def EmptyBelow (i : Nat) (ss : List OpenIndexSection) : Prop :=
  ∀ (j : Nat) (s : OpenIndexSection), j < i → ss[j]? = some s → s.entries = []

omit [Hashes] in
/-- A section of the grown list is an old one or empty. -/
theorem growSections_getElem? {level j : Nat} {ss : List OpenIndexSection} {s : OpenIndexSection}
    (h : (growSections level ss)[j]? = some s) : ss[j]? = some s ∨ s.entries = [] := by
  unfold growSections at h
  rcases Nat.lt_or_ge j ss.length with hj | hj
  · rw [List.getElem?_append_left hj] at h
    exact .inl h
  · rw [List.getElem?_append_right hj] at h
    obtain ⟨n, _, rfl⟩ := List.mem_map.1 (List.mem_of_getElem? h)
    exact .inr rfl

omit [Hashes] in
theorem Leveled.grow (h : Leveled ss) (level : Nat) : Leveled (growSections level ss) := by
  intro j s hs r hr
  rcases growSections_getElem? hs with hs | hs
  · exact h j s hs r hr
  · simp [hs] at hr

omit [Hashes] in
theorem EmptyBelow.grow (h : EmptyBelow i ss) (level : Nat) : EmptyBelow i (growSections level ss) := by
  intro j s hj hs
  rcases growSections_getElem? hs with hs | hs
  · exact h j s hj hs
  · exact hs

section
variable (h : SplitAt ss i lower s upper) (he : EmptyBelow i ss)
include h he

omit [Hashes] in
theorem SplitAt.lower_empty : ∀ t ∈ lower, t.entries = [] := by
  intro t ht
  obtain ⟨j, hj, rfl⟩ := List.mem_iff_getElem.1 ht
  refine he j _ (h.index ▸ hj) ?_
  rw [h.eq, List.getElem?_append_left hj, List.getElem?_eq_getElem hj]

omit [Hashes] in
/-- With nothing below it, a section's references are the newest. -/
theorem SplitAt.refs (es : List IndexEntry) : sectionRefs (Catengine.setEntries ss i es) = sectionRefs upper ++ es := by
  rw [h.setEntries, sectionRefs_append, sectionRefs_cons, sectionRefs_eq_nil (h.lower_empty he)]
  simp

omit [Hashes] in
theorem SplitAt.refs_self : sectionRefs ss = sectionRefs upper ++ s.entries := by
  rw [h.eq, sectionRefs_append, sectionRefs_cons, sectionRefs_eq_nil (h.lower_empty he)]
  simp

end

omit [Hashes] in
theorem setEntries_getElem? {ss : List OpenIndexSection} {i j : Nat} {es : List IndexEntry} {s : OpenIndexSection}
    (h : (setEntries ss i es)[j]? = some s) : (j = i ∧ s.entries = es) ∨ (j ≠ i ∧ ss[j]? = some s) := by
  unfold setEntries at h
  rw [List.getElem?_modify] at h
  by_cases hij : i = j
  · obtain ⟨t, _, rfl⟩ := Option.map_eq_some_iff.1 h
    exact .inl ⟨hij.symm, by simp [hij]⟩
  · refine .inr ⟨fun hc => hij hc.symm, ?_⟩
    simpa [hij] using h

omit [Hashes] in
theorem Leveled.clear (h : Leveled ss) (i : Nat) : Leveled (setEntries ss i []) := by
  intro j s hs r hr
  rcases setEntries_getElem? hs with ⟨_, he⟩ | ⟨_, hs⟩
  · simp [he] at hr
  · exact h j s hs r hr

omit [Hashes] in
theorem EmptyBelow.clear (h : EmptyBelow i ss) : EmptyBelow (i + 1) (setEntries ss i []) := by
  intro j s hj hs
  rcases setEntries_getElem? hs with ⟨_, he⟩ | ⟨hne, hs⟩
  · exact he
  · exact h j s (by omega) hs

/-- Pushing a reference appends what it holds. -/
theorem push_holds {config : Config} {pages : Pages} {generation writerEpoch : UInt64} (fuel : Nat) {level : Nat}
    {ref : IndexEntry} {ss' : List OpenIndexSection} {objects : List PageObject} {m : List LeafEntry}
    (h : push config generation writerEpoch fuel level ref ss = .ok (ss', objects)) (hs : Stored pages objects)
    (hlev : Leveled ss) (hemp : EmptyBelow (level - 1) ss) (href : ref.level.toNat + 1 = level)
    (hl : Holds config pages writerEpoch (sectionRefs ss) l)
    (hm : leaves config pages ref.level.toNat ref writerEpoch = .ok m) :
    Holds config pages writerEpoch (sectionRefs ss') (l ++ m) := by
  induction fuel generalizing level ref ss ss' objects l m with
  | zero => simp [push] at h
  | succ fuel ih =>
    simp only [push, checks_ok, not_or, Nat.not_lt, gt_iff_lt] at h
    obtain ⟨⟨hpos, hmax⟩, _, h⟩ := h
    obtain ⟨lower, s, upper, hsplit⟩ := exists_splitAt_grow hpos ss
    have hemp' := hemp.grow level
    have hlev' := hlev.grow level
    rw [hsplit.entries] at h
    rw [← sectionRefs_grow level, hsplit.refs_self hemp'] at hl
    obtain ⟨a, b, ha, hb, rfl⟩ := holds_append.1 hl
    have hentries : Holds config pages writerEpoch (s.entries ++ [ref]) (b ++ m) :=
      holds_append.2 ⟨b, m, hb, holds_single.2 hm, rfl⟩
    split at h
    · -- the section has room
      simp only [pure_ok, Prod.mk.injEq] at h
      obtain ⟨rfl, rfl⟩ := h
      rw [hsplit.refs hemp', List.append_assoc]
      exact holds_append.2 ⟨a, b ++ m, ha, hentries, rfl⟩
    · -- the section is sealed and its page carried to the next level
      simp only [checks_ok, Prod.exists] at h
      obtain ⟨parent, object, hseal, ss1, rest, hpush, rfl, rfl⟩ := h
      obtain ⟨ms, hms, hflat⟩ := hentries
      have hs_at : (growSections level ss)[level - 1]? = some s := by
        rw [hsplit.eq, ← hsplit.index]
        simp
      have hdepth : ∀ r ∈ s.entries ++ [ref], r.level.toNat = level - 1 := by
        intro r hr
        rcases mem_concat.1 hr with hr | rfl
        · exact hlev' _ _ hs_at r hr
        · omega
      have hchildren : List.Forall₂ (fun c x => leaves config pages (level - 1) c writerEpoch = .ok x)
          (s.entries ++ [ref]) ms :=
        (forall₂_with_mem hms).imp fun c _ hc => hdepth c hc.1 ▸ hc.2
      obtain ⟨hplevel, hpleaves⟩ := sealIndex_leaves hseal (hs object List.mem_cons_self) (UInt64.le_refl _) hchildren
      have hpnat : parent.level.toNat = level := by
        rw [hplevel]
        simp only [maxOpenIndexLevel, maxIndexLevel] at hmax
        exact UInt8.toNat_ofNat_of_lt' (by simp only [UInt8.size]; omega)
      rw [hflat, Nat.sub_add_cancel (by omega), ← hpnat] at hpleaves
      rw [List.append_assoc]
      refine ih hpush (fun o ho => hs o (List.mem_cons_of_mem _ ho)) (hlev'.clear _) ?_ (by omega) ?_ hpleaves
      · have := hemp'.clear
        rwa [Nat.sub_add_cancel (by omega)] at this
      · rw [hsplit.refs hemp', List.append_nil]
        exact ha

end ObjLog.Catengine
