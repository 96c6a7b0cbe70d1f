import ObjLog.Catengine.Carry
/-!
# Creating, taking over and appending keep the invariant

Each operation's effect on the history is exact: a new head has none, a
takeover leaves it as it is, an append adds one entry at its end.
-/

namespace ObjLog.Catengine

open Lib Catformat Pmeta Blobstore
open Config (entryOf)

variable [Hashes]

variable {config : Config} {head : Head} {segment : SegmentRef}

variable {pages : Pages} {l : List LeafEntry} {m : Mutation}

/-! ## The history as references and active entries -/

theorem flat_iff_holds : flat config pages head = .ok l ↔
      ∃ a, Holds config pages head.header.writerEpoch (sectionRefs head.sections) a ∧ a ++ head.active = l := by
  have hroots : headRoots head = (sectionRefs head.sections).map .ref ++ head.active.map .leaf := by
    simp [headRoots, sectionRefs, List.map_flatMap]
  have hactive : ∀ es : List LeafEntry, (es.map HeadRoot.leaf).mapM
      (HeadRoot.leaves config pages head.header.writerEpoch) = .ok (es.map ([·])) := by
    intro es
    rw [mapM_ok, List.forall₂_map_left_iff, List.forall₂_map_right_iff, List.forall₂_same]
    exact fun _ _ => rfl
  simp only [flat, hroots, List.mapM_append, map_ok, checks_ok, hactive, mapM_ok, List.forall₂_map_left_iff]
  constructor
  · rintro ⟨_, ⟨ls, hls, _, hact, rfl⟩, rfl⟩
    obtain rfl := Except.ok.inj hact
    exact ⟨ls.flatten, ⟨ls, hls, rfl⟩, by simp [List.flatten_append, ← List.flatMap_def]⟩
  · rintro ⟨_, ⟨ls, hls, rfl⟩, rfl⟩
    exact ⟨_, ⟨ls, hls, _, rfl, rfl⟩, by simp [List.flatten_append, ← List.flatMap_def]⟩

theorem marshalHead_valid {body : Bytes} (h : marshalHead head = .ok body) : HeadOk head := by
  simp only [marshalHead, checks_ok] at h
  exact (validateHead_ok head).1 h.1

omit [Hashes] in
/-- The header fields a configuration fixes. -/
theorem validateConfigHead_ok : validateConfigHead config head = .ok () ↔
      (head.header.partition = config.partition ∧ head.header.streamKey = config.streamKey ∧
        head.header.dataRootKey = config.dataRootKey) ∧
      (head.header.leafLimit = config.leafLimit ∧ head.header.indexLimit = config.indexLimit ∧
        head.header.hashAlgo = config.hashAlgo) ∧ head.header.segmentLayoutVersion = segmentLayoutV1 := by
  simp only [validateConfigHead, checks_ok, not_or, not_not, ne_eq]

/-! ## A new head -/

theorem newHead_inv {n : UInt64} {body : Bytes}
    (h : newHead config n = .ok (head, body)) : Inv config pages head [] := by
  simp only [newHead, checks_ok] at h
  obtain ⟨_, _, hm, rfl, _⟩ := h
  refine ⟨validateConfigHead_ok.2 ⟨⟨rfl, rfl, rfl⟩, ⟨rfl, rfl, rfl⟩, rfl⟩, marshalHead_valid hm, rfl, .nil, ?_, ?_⟩
  · simp
  · simp

/-! ## Takeover -/

/-- What a takeover changes. -/
structure TakesOver (head next : Head) (writerID : Arr 16) : Prop where
  eq : next = { head with header := { head.header with
    writerEpoch := head.header.writerEpoch + 1
    generation := head.header.generation + 1
    writerID := writerID } }
  epoch : head.header.writerEpoch < next.header.writerEpoch
  generation : head.header.generation < next.header.generation

omit [Hashes] in
theorem lt_succ_of_ne_max {a : UInt64} (h : a ≠ maxUint64) : a < a + 1 := by
  have hne : a.toNat ≠ 18446744073709551615 := fun hc => h (UInt64.toNat_inj.1 hc)
  have hlt := a.toNat_lt
  rw [UInt64.lt_iff_toNat_lt, UInt64.toNat_add]
  simp only [UInt64.reduceToNat]
  omega

theorem takeover_ok {writerID : Arr 16} (h : takeover config head writerID = .ok m) :
    TakesOver head m.head writerID ∧ m.pages = [] ∧ marshalHead m.head = .ok m.headBody ∧
      validateConfigHead config head = .ok () := by
  simp only [takeover, checks_ok] at h
  obtain ⟨_, hc, he, hg, body, hm, rfl⟩ := h
  exact ⟨⟨rfl, lt_succ_of_ne_max he, lt_succ_of_ne_max hg⟩, rfl, hm, hc⟩

theorem takeover_inv {pages' : Pages} {writerID : Arr 16}
    (hi : Inv config pages head l) (h : takeover config head writerID = .ok m)
    (hg : Grows pages pages') : Inv config pages' m.head l := by
  obtain ⟨ht, _, hm, hc⟩ := takeover_ok h
  have hle : head.header.writerEpoch ≤ m.head.header.writerEpoch := UInt64.le_of_lt ht.epoch
  obtain ⟨a, ha, rfl⟩ := flat_iff_holds.1 hi.contents
  refine ⟨?_, marshalHead_valid hm, flat_iff_holds.2 ⟨a, ?_, ?_⟩, hi.epochs, ?_, ?_⟩
  · rw [ht.eq]
    exact validateConfigHead_ok.2 (validateConfigHead_ok.1 hc)
  · have := ha.mono hg hle
    rw [ht.eq] at this ⊢
    exact this
  · rw [ht.eq]
  · intro e he
    exact UInt64.le_trans (hi.epochMax e he) hle
  · intro e he
    rw [ht.eq]
    exact hi.last e he

/-! ## Append -/

/-- What `Append` has checked about the entry. -/
structure AppendChecked (config : Config) (head : Head) (segment : SegmentRef) (entry : LeafEntry) : Prop where
  identity : validateConfigHead config head = .ok ()
  generation : head.header.generation ≠ maxUint64
  converts : config.leafEntry segment = .ok entry
  fenced : head.header.writerEpoch ≠ 0
  epoch : entry.writerEpoch = head.header.writerEpoch
  tag : entry.writerTag = head.header.writerID
  base : entry.baseLSN = head.header.nextLSN
  times : head.hasLastSegment = true → head.lastSegment.maxTimestampMS ≤ entry.minTimestampMS

theorem checkAppend_ok {entry : LeafEntry} :
    checkAppend config head segment = .ok entry ↔ AppendChecked config head segment entry := by
  simp only [checkAppend, checks_ok, not_or, not_not, not_and, ne_eq, Int64.not_lt]
  constructor
  · rintro ⟨h1, h2, e, h3, ⟨h4, h5⟩, h6, h7, h8, rfl⟩
    exact ⟨h1, h2, h3, h4, h5, h6, h7, h8⟩
  · rintro ⟨h1, h2, h3, h4, h5, h6, h7, h8⟩
    exact ⟨h1, h2, entry, h3, ⟨h4, h5⟩, h6, h7, h8, rfl⟩

/-- The entry is the segment in catalog form. -/
theorem leafEntry_eq {entry : LeafEntry} (h : config.leafEntry segment = .ok entry) : entry = entryOf segment := by
  simp only [Config.leafEntry, checks_ok] at h
  exact h.2.2.2.2.symm

/-- Placing keeps what is held, and moves a full active list into the sections. -/
theorem place_holds {header : HeadHeader} {active active' : List LeafEntry}
    {ss ss' : List OpenIndexSection} {objects : List PageObject} {a : List LeafEntry}
    (h : place config header active ss = .ok (active', ss', objects)) (hs : Stored pages objects)
    (hlev : Leveled ss) (ha : Holds config pages header.writerEpoch (sectionRefs ss) a) :
    ∃ b, Holds config pages header.writerEpoch (sectionRefs ss') b ∧ b ++ active' = a ++ active := by
  unfold place at h
  split at h
  · simp only [checks_ok, Prod.exists] at h
    obtain ⟨ref, object, hseal, ss1, rest, hpush, rfl, rfl, rfl⟩ := h
    have hobj := hs object List.mem_cons_self
    obtain ⟨hlevel, hleaves⟩ := sealLeaf_leaves ref.level.toNat hseal hobj (UInt64.le_refl _)
    have hbelow : EmptyBelow (1 - 1) ss := fun j _ hj => absurd hj (by omega)
    have hholds := push_holds pushFuel hpush (fun o ho => hs o (List.mem_cons_of_mem _ ho)) hlev hbelow
      (by rw [hlevel]; rfl) ha hleaves
    exact ⟨_, hholds, by simp⟩
  · simp only [pure_ok, Prod.mk.injEq] at h
    obtain ⟨rfl, rfl, rfl⟩ := h
    exact ⟨a, ha, rfl⟩

omit [Hashes] in
/-- A valid head keeps references at their levels. -/
theorem headOk_leveled (h : HeadOk head) : Leveled head.sections := by
  intro j s hs r hr
  have hsec := h.sections j s hs
  have hchild := hsec.entries r hr
  have hlen : j < head.sections.length := (List.getElem?_eq_some_iff.1 hs).1
  have hmax := h.header.levels
  have hrl := hchild.entry.level
  have hlevel := congrArg UInt8.toNat (hchild.level.trans hsec.level)
  simp only [maxOpenIndexLevel, maxIndexLevel] at hmax hrl
  rw [UInt8.toNat_add, UInt8.toNat_ofNat_of_lt' (by simp only [UInt8.size]; omega)] at hlevel
  simp only [UInt8.reduceToNat] at hlevel
  omega

/-- What `Append` returns. -/
theorem append_ok (h : append config head segment = .ok m) :
    ∃ active ss, AppendChecked config head segment (entryOf segment) ∧
      place config (appendHeader head (entryOf segment)) (head.active ++ [entryOf segment])
        head.sections = .ok (active, ss, m.pages) ∧ m.head =
        { header := { appendHeader head (entryOf segment) with
            activeCount := UInt32.ofNat active.length
            levelCount := UInt32.ofNat ss.length }
          lastSegment := entryOf segment
          active := active
          sections := ss } ∧
      marshalHead m.head = .ok m.headBody := by
  simp only [append, checks_ok, checkAppend_ok, Prod.exists] at h
  obtain ⟨entry, hc, active, ss, objects, hp, body, hm, rfl⟩ := h
  obtain rfl := leafEntry_eq hc.converts
  exact ⟨active, ss, hc, hp, rfl, hm⟩

theorem append_inv {pages' : Pages} (hi : Inv config pages head l) (h : append config head segment = .ok m)
    (hg : Grows pages pages') (hs : Stored pages' m.pages) :
    Inv config pages' m.head (l ++ [entryOf segment]) := by
  obtain ⟨active, ss, hc, hp, hhead, hm⟩ := append_ok h
  obtain ⟨a, ha, rfl⟩ := flat_iff_holds.1 hi.contents
  obtain ⟨b, hb, hba⟩ := place_holds hp hs (headOk_leveled hi.valid) (ha.mono hg (UInt64.le_refl _))
  have hepoch : m.head.header.writerEpoch = head.header.writerEpoch := by rw [hhead]; rfl
  refine ⟨?_, marshalHead_valid hm, flat_iff_holds.2 ⟨b, ?_, ?_⟩, ?_, ?_, ?_⟩
  · rw [hhead]
    exact validateConfigHead_ok.2 (validateConfigHead_ok.1 hc.identity)
  · rw [hhead]
    exact hb
  · rw [hhead, List.append_assoc]
    exact hba
  · -- every earlier entry is at most the head's epoch, which is the new entry's
    refine List.isChain_append.2 ⟨hi.epochs, by simp, fun x hx y hy => ?_⟩
    obtain rfl : entryOf segment = y := by simpa using hy
    rw [hc.epoch]
    exact hi.epochMax x (List.mem_of_getLast? hx)
  · intro e he
    rw [hepoch]
    rcases mem_concat.1 he with he | rfl
    · exact hi.epochMax e he
    · rw [hc.epoch]
      exact UInt64.le_refl _
  · intro e he
    obtain rfl : entryOf segment = e := by simpa using he
    rw [hhead]

end ObjLog.Catengine
