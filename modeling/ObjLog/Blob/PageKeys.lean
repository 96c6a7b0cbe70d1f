import ObjLog.Blob.Paths
import ObjLog.Sink.Layout
/-!
# Object keys as a whole

What `Blob.Paths` and `Sink.Layout` say about single keys, for all of them: a key
is accepted exactly when it is the key of what is read off it, no key is listed
under another partition, keys sort as the numbers in them, and the engine derives
the same keys the layouts do.
-/

namespace ObjLog.Blob

open Lib Catformat Catengine
open Keylayout (normalizeStreamID partitionTail)

variable {key : String} {k : PageObjectKey} {ref : IndexEntry} {config : Config}

variable [Hashes] {catalogPrefix streamID : String} {partition : UInt32}

/-- The path of a page of either kind. -/
def pageObjectPath (catalogPrefix streamID : String) (partition : UInt32) (level : UInt8)
    (seqLo seqHi generation : UInt64) (pageID : String) : String :=
  if level = 0 then leafPagePath catalogPrefix streamID partition seqLo seqHi generation pageID
  else indexPagePath catalogPrefix streamID partition level seqLo seqHi generation pageID

/-- The name of a page after its directory and kind. -/
def pageText (seqLo seqHi generation : UInt64) (pageID : String) : List Char :=
  (padDec 20 seqHi.toNat).toList ++ ('-' :: ((padDec 20 seqLo.toNat).toList ++
    ('-' :: ((padDec 20 generation.toNat).toList ++ ('-' :: (pageID.toList ++ ".plc".toList))))))

theorem toList_pageObjectPath (level : UInt8) (seqLo seqHi generation : UInt64) (pageID : String) :
    (pageObjectPath catalogPrefix streamID partition level seqLo seqHi generation pageID).toList =
      (pagePrefix catalogPrefix streamID partition).toList ++ (('l' :: (padDec 2 level.toNat).toList) ++
        '/' :: ((namePrefix level.toNat).toList ++ pageText seqLo seqHi generation pageID)) := by
  by_cases h0 : level = 0
  · have hdir : (padDec 2 0).toList = ['0', '0'] := by decide
    simp [pageObjectPath, leafPagePath, pagePrefix, pageText, h0, namePrefix, hdir]
  · have hpos : 0 < level.toNat := Nat.pos_of_ne_zero fun h => h0 (UInt8.toNat_inj.1 h)
    simp [pageObjectPath, indexPagePath, pagePrefix, pageText, h0, namePrefix, hpos]

/-! ## What is accepted -/

omit [Hashes] in
theorem parsePageUint_text {value : List Char} {n : Nat} (h : parsePageUint value = some n) (hlen : byteLen value = 20) :
    n < 2 ^ 64 ∧ value = (padDec 20 n).toList := by
  unfold parsePageUint at h
  split at h
  · exact padDec_parseUint h (by decide) hlen
  · cases h

omit [Hashes] in
theorem parsePageFields_text {level : Nat} {fields : List (List Char)} (h : parsePageFields key level fields = .ok k) :
    fields = [(padDec 20 k.seqHi.toNat).toList, (padDec 20 k.seqLo.toNat).toList, (padDec 20 k.generation.toNat).toList,
      k.pageID.toList] ∧ k.generation ≠ 0 ∧ k.kind = (if level > 0 then .index else .leaf) ∧
        k.pageID.toList.length = 32 ∧ ∀ c ∈ k.pageID.toList, isLowerHex c = true := by
  unfold parsePageFields at h
  split at h
  · rename_i hi lo gen id
    simp only [checks_ok, not_or, not_not] at h
    obtain ⟨⟨hhiLen, hloLen, hgenLen, hidLen⟩, h⟩ := h
    cases hhi : parsePageUint hi with
    | none => simp [hhi] at h
    | some seqHi =>
      cases hlo : parsePageUint lo with
      | none => simp [hhi, hlo] at h
      | some seqLo =>
        cases hgen : parsePageUint gen with
        | none => simp [hhi, hlo, hgen] at h
        | some generation =>
          simp only [hhi, hlo, hgen, checks_ok, not_not, List.all_eq_true] at h
          obtain ⟨-, hne, hid, rfl⟩ := h
          obtain ⟨hhiLt, rfl⟩ := parsePageUint_text hhi hhiLen
          obtain ⟨hloLt, rfl⟩ := parsePageUint_text hlo hloLen
          obtain ⟨hgenLt, rfl⟩ := parsePageUint_text hgen hgenLen
          rw [byteLen_of_lowerHex hid] at hidLen
          dsimp only
          rw [UInt64.toNat_ofNat_of_lt' hhiLt, UInt64.toNat_ofNat_of_lt' hloLt, UInt64.toNat_ofNat_of_lt' hgenLt,
            String.toList_ofList]
          refine ⟨rfl, fun h0 => hne ?_, rfl, hidLen, hid⟩
          rw [← UInt64.toNat_ofNat_of_lt' hgenLt, h0]
          rfl
  · simp only [throw_ok] at h

omit [Hashes] in
theorem parsePageName_text {level : Nat} {name : List Char} (h : parsePageName key level name = .ok k) :
    name = (namePrefix level).toList ++ pageText k.seqLo k.seqHi k.generation k.pageID ∧
      k.level = UInt8.ofNat level ∧ k.generation ≠ 0 ∧ k.kind = (if level > 0 then .index else .leaf) ∧ k.pageID.toList.length = 32 ∧
        ∀ c ∈ k.pageID.toList, isLowerHex c = true := by
  simp only [parsePageName, checks_ok, not_or, not_not] at h
  obtain ⟨⟨⟨rest, rfl⟩, hends⟩, h⟩ := h
  rw [List.dropPrefix?_append_of_beq _ (BEq.refl _), Option.getD_some] at h
  obtain ⟨-, hlevel, -⟩ := parsePageFields_fields h
  obtain ⟨hfields, hgen, hkind, hlen, hid⟩ := parsePageFields_text h
  -- the fields between dashes are the text they were split from
  have hjoin : ['-'].intercalate (((rest.dropSuffix? ".plc".toList).getD rest).splitOn '-') =
      (rest.dropSuffix? ".plc".toList).getD rest := List.intercalate_splitOn '-'
  rw [hfields] at hjoin
  cases hdrop : rest.dropSuffix? ".plc".toList with
  | none =>
    rw [hdrop, Option.getD_none] at hjoin
    have hlong : 4 ≤ rest.length := by
      rw [← hjoin]
      simp [List.intercalate, List.intersperse, hlen]
      omega
    obtain ⟨front, hfront⟩ := List.suffix_of_suffix_length_le hends (List.suffix_append _ rest) hlong
    rw [← hfront, List.dropSuffix?_eq_some_iff.2 ⟨_, rfl, BEq.refl _⟩] at hdrop
    cases hdrop
  | some front =>
    rw [hdrop, Option.getD_some] at hjoin
    obtain ⟨ending, hrest, heq⟩ := List.dropSuffix?_eq_some_iff.1 hdrop
    refine ⟨?_, hlevel, hgen, hkind, hlen, hid⟩
    rw [hrest, eq_of_beq heq, ← hjoin]
    simp [pageText, List.intercalate, List.intersperse]

omit [Hashes] in
theorem span_slash {l a b : List Char} {c : Char} (h : l.span (· ≠ '/') = (a, c :: b)) : l = a ++ '/' :: b ∧ c = '/' := by
  rw [List.span_eq_takeWhile_dropWhile, Prod.mk.injEq] at h
  obtain ⟨hfront, hrest⟩ := h
  have hc := head?_dropWhile (fun x => decide (x ≠ '/')) l c (by rw [hrest]; rfl)
  obtain rfl : c = '/' := by simpa using hc
  refine ⟨?_, rfl⟩
  rw [← hfront, ← hrest, List.takeWhile_append_dropWhile]

/-- A key is accepted when it is the key of what is read off it. -/
theorem parsePagePath_text (h : parsePagePath catalogPrefix streamID partition key = .ok k) :
    k.key = key ∧ key = pageObjectPath catalogPrefix streamID partition k.level k.seqLo k.seqHi k.generation k.pageID ∧
      k.level.toNat ≤ maxIndexLevel ∧ k.seqLo ≤ k.seqHi ∧ k.generation ≠ 0 ∧
        k.kind = (if k.level = 0 then .leaf else .index) ∧ ∃ id : Arr 16, k.pageID = hexString id.bytes := by
  obtain ⟨hkey, -, hmax, hrange⟩ := parsePagePath_fields h
  unfold parsePagePath at h
  cases hrel : key.toList.dropPrefix? (pagePrefix catalogPrefix streamID partition).toList with
  | none => simp [hrel] at h
  | some relative =>
    simp only [hrel] at h
    cases hspan : relative.span (· ≠ '/') with
    | mk levelDir tail =>
      rw [hspan] at h
      cases tail with
      | nil => simp at h
      | cons slash name =>
        simp only [checks_ok, not_or, not_not] at h
        obtain ⟨⟨-, hdirLen, hhead⟩, h⟩ := h
        obtain ⟨digits, rfl⟩ : ∃ digits, levelDir = 'l' :: digits := ⟨levelDir.tail, List.eq_cons_of_mem_head? hhead⟩
        rw [List.drop_one, List.tail_cons] at h
        cases hparse : parseUint 8 digits with
        | none => simp [hparse] at h
        | some level =>
          simp only [hparse, checks_ok, Nat.not_lt] at h
          obtain ⟨hlevel, h⟩ := h
          have hdigitsLen : byteLen digits = 2 := by
            simp only [byteLen, List.map_cons, List.sum_cons] at hdirLen ⊢
            have hl : 'l'.utf8Size = 1 := rfl
            omega
          obtain ⟨hlt, rfl⟩ := padDec_parseUint hparse (by decide) hdigitsLen
          obtain ⟨hname, hk, hgen, hkind, hidLen, hid⟩ := parsePageName_text h
          have hnat : k.level.toNat = level := by rw [hk, UInt8.toNat_ofNat_of_lt' hlt]
          refine ⟨hkey, String.toList_inj.1 ?_, hmax, hrange, hgen, ?_, ?_⟩
          · obtain ⟨front, hkeyText, heq⟩ := List.dropPrefix?_eq_some_iff.1 hrel
            obtain ⟨hrelative, rfl⟩ := span_slash hspan
            rw [toList_pageObjectPath, hkeyText, eq_of_beq heq, hrelative, hname, hnat]
          · rw [hkind]
            by_cases h0 : k.level = 0
            · rw [if_pos h0, if_neg (by rw [← hnat, h0]; decide)]
            · rw [if_neg h0, if_pos]
              exact Nat.pos_of_ne_zero fun hz => h0 (UInt8.toNat_inj.1 (hnat.trans hz))
          · obtain ⟨id, hidBytes, htext⟩ := exists_hexString hid (n := 16) hidLen
            exact ⟨⟨id, hidBytes⟩, (String.toList_inj.1 htext).symm⟩

/-- The path of the page a reference names. -/
def refPath (catalogPrefix streamID : String) (partition : UInt32) (ref : IndexEntry) : String :=
  pageObjectPath catalogPrefix streamID partition ref.level ref.seqLo ref.seqHi ref.generation
    (hexString ref.pageID.bytes)

theorem parsePagePath_refPath (hlevel : ref.level.toNat ≤ maxIndexLevel) (hrange : ref.seqLo ≤ ref.seqHi)
    (hgen : ref.generation ≠ 0) : parsePagePath catalogPrefix streamID partition (refPath catalogPrefix streamID partition ref) =
      .ok (pageObjectKey (refPath catalogPrefix streamID partition ref) ref) := by
  refine (parsePagePath_key ?_ hlevel).2 ⟨hrange, hgen, rfl⟩
  rw [refPath, toList_pageObjectPath, toList_pageName]
  simp [pageText, pageFields, List.intercalate, List.intersperse]

/-! ## Where pages are listed -/

theorem toList_partitionPrefix (catalogPrefix streamID : String) (partition : UInt32) :
    (partitionPrefix catalogPrefix streamID partition).toList ++ ['/'] =
      (normalizePrefix catalogPrefix).toList ++ ('/' :: partitionTail streamID partition) := by
  unfold partitionPrefix partitionTail
  by_cases hs : normalizeStreamID streamID = ""
  · simp [hs]
  · simp [hs]

theorem toList_pagePrefix (catalogPrefix streamID : String) (partition : UInt32) :
    (pagePrefix catalogPrefix streamID partition).toList =
      (normalizePrefix catalogPrefix).toList ++ ('/' :: (partitionTail streamID partition ++ "pages/".toList)) := by
  have h := toList_partitionPrefix catalogPrefix streamID partition
  have hslash : "/pages/".toList = ['/'] ++ "pages/".toList := rfl
  rw [pagePrefix, String.toList_append, hslash, ← List.append_assoc, h, List.append_assoc, List.cons_append]

/-- No page is listed under another partition, unless the hashes of their streams collide. -/
theorem pagePrefix_free {other : String} {partition' : UInt32}
    (hsha : Hashes.sha256 (utf8 (normalizeStreamID streamID)) = Hashes.sha256 (utf8 (normalizeStreamID other)) →
      normalizeStreamID streamID = normalizeStreamID other)
    (h : (pagePrefix catalogPrefix other partition').toList <+: (refPath catalogPrefix streamID partition ref).toList) :
    normalizeStreamID streamID = normalizeStreamID other ∧ partition = partition' := by
  rw [refPath, toList_pageObjectPath, toList_pagePrefix, toList_pagePrefix, List.append_assoc,
    List.prefix_append_right_inj, List.cons_append, List.cons_prefix_cons, List.append_assoc] at h
  exact Keylayout.partitionTail_free hsha ((List.prefix_append _ _).trans h.2)

/-! ## The order of page keys -/

omit [Hashes] in
theorem ascii_pageText (ref : IndexEntry) :
    Ascii (pageText ref.seqLo ref.seqHi ref.generation (hexString ref.pageID.bytes)) := by
  have hdash : Ascii ['-'] := by decide
  have hsuffix : Ascii ".plc".toList := by decide
  exact (ascii_padDec _ _).append (hdash.append ((ascii_padDec _ _).append (hdash.append ((ascii_padDec _ _).append
    (hdash.append ((ascii_hexString _).append hsuffix))))))

/-- The start of the keys of one level. -/
def levelStart (catalogPrefix streamID : String) (partition : UInt32) (level : UInt8) : String :=
  pageLevelPrefix catalogPrefix streamID partition level ++ namePrefix level.toNat

theorem refPath_eq (ref : IndexEntry) : refPath catalogPrefix streamID partition ref =
    levelStart catalogPrefix streamID partition ref.level ++
      String.ofList (pageText ref.seqLo ref.seqHi ref.generation (hexString ref.pageID.bytes)) := by
  rw [← String.toList_inj, refPath, toList_pageObjectPath]
  simp [levelStart, pageLevelPrefix]

theorem pageEndLowerBound_eq (level : UInt8) (seqHi : UInt64) :
    pageEndLowerBound catalogPrefix streamID partition level seqHi =
      levelStart catalogPrefix streamID partition level ++ (padDec 20 seqHi.toNat ++ "-") := by
  rw [← String.toList_inj]
  by_cases h0 : level = 0
  · simp [pageEndLowerBound, levelStart, namePrefix, h0]
  · have hpos : 0 < level.toNat := Nat.pos_of_ne_zero fun h => h0 (UInt8.toNat_inj.1 h)
    simp [pageEndLowerBound, levelStart, namePrefix, h0, hpos]

omit [Hashes] in
theorem padDec20_lt_iff {m n : UInt64} : (padDec 20 m.toNat).toList < (padDec 20 n.toNat).toList ↔ m < n := by
  rw [padDec_lt_iff (by decide) (Nat.lt_trans m.toNat_lt (by decide)) (Nat.lt_trans n.toNat_lt (by decide)),
    UInt64.lt_iff_toNat_lt]

omit [Hashes] in
theorem padDec20_inj {m n : UInt64} : (padDec 20 m.toNat).toList = (padDec 20 n.toNat).toList ↔ m = n := by
  rw [String.toList_inj, padDec_inj, UInt64.toNat_inj]

/-- Keys of one level sort by their last LSN, then their first, then the generation, then the page id. -/
theorem refPath_lt_iff {r s : IndexEntry} (hlevel : r.level = s.level) :
    utf8 (refPath catalogPrefix streamID partition r) < utf8 (refPath catalogPrefix streamID partition s) ↔
      r.seqHi < s.seqHi ∨ (r.seqHi = s.seqHi ∧ (r.seqLo < s.seqLo ∨ (r.seqLo = s.seqLo ∧
        (r.generation < s.generation ∨ (r.generation = s.generation ∧ r.pageID.bytes < s.pageID.bytes))))) := by
  have hr := ascii_pageText r
  have hs := ascii_pageText s
  rw [← String.toList_ofList (l := pageText _ _ _ _)] at hr hs
  rw [refPath_eq, refPath_eq, hlevel, utf8_lt_iff hr hs, String.toList_ofList, String.toList_ofList, pageText, pageText]
  have hlen := Sink.length_padDec20
  have hdash : ∀ x y : List Char, '-' :: x < '-' :: y ↔ x < y := fun x y => by simp
  rw [append_lt_append_iff (by rw [hlen, hlen]), hdash, append_lt_append_iff (by rw [hlen, hlen]), hdash,
    append_lt_append_iff (by rw [hlen, hlen]), hdash,
    append_lt_append_iff (by rw [Sink.length_uuid, Sink.length_uuid]), hexString_lt_iff]
  simp only [padDec20_lt_iff, padDec20_inj, lt_irrefl, and_false, or_false]

/-- The bound sorts before exactly the keys of its level that end at its LSN or later. -/
theorem pageEndLowerBound_lt_iff {seqHi : UInt64} :
    utf8 (pageEndLowerBound catalogPrefix streamID partition ref.level seqHi) <
      utf8 (refPath catalogPrefix streamID partition ref) ↔ seqHi ≤ ref.seqHi := by
  have htext := ascii_pageText ref
  rw [← String.toList_ofList (l := pageText _ _ _ _)] at htext
  have hbound : Ascii (padDec 20 seqHi.toNat ++ "-").toList := by
    have hdash : Ascii "-".toList := by decide
    rw [String.toList_append]
    exact (ascii_padDec _ _).append hdash
  rw [refPath_eq, pageEndLowerBound_eq, utf8_lt_iff hbound htext, String.toList_ofList, String.toList_append, pageText,
    append_lt_append_iff (by rw [Sink.length_padDec20, Sink.length_padDec20]), padDec20_lt_iff, padDec20_inj]
  -- at the same LSN the key goes on where the bound ends
  have hrest : "-".toList < '-' :: ((padDec 20 ref.seqLo.toNat).toList ++ ('-' :: ((padDec 20 ref.generation.toNat).toList ++
      ('-' :: ((hexString ref.pageID.bytes).toList ++ ".plc".toList))))) := by
    refine lt_append (a := ['-']) (List.append_ne_nil_of_right_ne_nil _ (List.cons_ne_nil _ _))
  simp only [hrest, and_true, UInt64.lt_iff_toNat_lt, UInt64.le_iff_toNat_le, ← UInt64.toNat_inj]
  omega

/-! ## The engine's keys -/

theorem pagePath_eq
    (hroot : partitionPrefix catalogPrefix streamID partition = config.partitionPrefix) (ref : IndexEntry) :
    config.leafPagePath ref = leafPagePath catalogPrefix streamID partition ref.seqLo ref.seqHi ref.generation
        (hexString ref.pageID.bytes) ∧
      config.indexPagePath ref = indexPagePath catalogPrefix streamID partition ref.level ref.seqLo ref.seqHi
        ref.generation (hexString ref.pageID.bytes) ∧
      config.pagePath ref = refPath catalogPrefix streamID partition ref := by
  have hleaf : config.leafPagePath ref = leafPagePath catalogPrefix streamID partition ref.seqLo ref.seqHi ref.generation
      (hexString ref.pageID.bytes) := by
    rw [← String.toList_inj]
    simp [Config.leafPagePath, leafPagePath, Config.pageName, hroot]
  have hindex : config.indexPagePath ref = indexPagePath catalogPrefix streamID partition ref.level ref.seqLo ref.seqHi
      ref.generation (hexString ref.pageID.bytes) := by
    rw [← String.toList_inj]
    simp [Config.indexPagePath, indexPagePath, Config.pageName, hroot]
  refine ⟨hleaf, hindex, ?_⟩
  rw [Config.pagePath, refPath, pageObjectPath, hleaf, hindex]

theorem segmentURI_eq {dataRoot : String} {leafLimit indexLimit : UInt32} {hashAlgo : HashAlgo}
    (h : newConfig catalogPrefix dataRoot streamID partition leafLimit indexLimit hashAlgo = .ok config)
    (entry : LeafEntry) (createdUnixMS : Int64) :
    config.segmentURI entry = (Sink.newLayout dataRoot).segmentKey ⟨streamID, partition, entry.baseLSN, entry.writerEpoch,
      entry.writerTag, entry.segmentUUID, createdUnixMS⟩ := by
  obtain ⟨-, hdata, hstream, hpart⟩ := newConfig_roots h
  have hroot : (Sink.newLayout dataRoot).root = config.dataRoot := by
    rw [hdata, Sink.Layout.root, Sink.newLayout]
    by_cases hempty : trimSlashes dataRoot = ""
    · rw [if_pos hempty, if_pos hempty]
      rfl
    · rw [if_neg hempty, if_neg hempty, if_neg hempty]
  have hnorm : normalizeStreamID (normalizeStreamID streamID) = normalizeStreamID streamID :=
    trimSlashes_idem _
  rw [Config.segmentURI, Sink.Layout.segmentKey, hroot, hstream, hpart, Keylayout.segmentObjectKey, hnorm]
  rfl

omit partition in
/-- A segment the engine records is read back as it was. -/
theorem segmentRef_leafEntry {segment : Pmeta.SegmentRef} {entry : LeafEntry}
    (h : config.leafEntry segment = .ok entry) : config.segmentRef entry = segment := by
  simp only [Config.leafEntry, checks_ok, not_or, not_not] at h
  obtain ⟨-, ⟨hstream, hpartition⟩, -, huri, rfl⟩ := h
  rw [Config.segmentRef, ← huri, ← hstream, ← hpartition]
  rfl

/-- Object keys are parseable, exact, separate by partition and ordered, and the engine's are the layouts'. -/
theorem object_keys : (∀ (l : Sink.Layout) info, info.writerEpoch ≠ 0 → info.segmentUUID ≠ .zero 16 →
      l.parseSegmentKey info.streamID info.partition (l.segmentKey info) =
        .ok ⟨l.segmentKey info, info.baseLSN, info.writerEpoch, info.segmentUUID⟩) ∧
    (∀ (l : Sink.Layout) streamID partition key k, l.parseSegmentKey streamID partition key = .ok k →
      k.key = key ∧ k.writerEpoch ≠ 0 ∧ k.segmentUUID ≠ .zero 16 ∧ ∀ writerTag createdUnixMS,
        key = l.segmentKey ⟨streamID, partition, k.baseLSN, k.writerEpoch, writerTag, k.segmentUUID, createdUnixMS⟩) ∧
    (∀ catalogPrefix streamID partition (ref : IndexEntry), ref.level.toNat ≤ maxIndexLevel → ref.seqLo ≤ ref.seqHi →
      ref.generation ≠ 0 → parsePagePath catalogPrefix streamID partition (refPath catalogPrefix streamID partition ref) =
        .ok (pageObjectKey (refPath catalogPrefix streamID partition ref) ref)) ∧
    (∀ catalogPrefix streamID partition key k, parsePagePath catalogPrefix streamID partition key = .ok k →
      k.key = key ∧ key = pageObjectPath catalogPrefix streamID partition k.level k.seqLo k.seqHi k.generation k.pageID ∧
        k.level.toNat ≤ maxIndexLevel ∧ k.seqLo ≤ k.seqHi ∧ k.generation ≠ 0 ∧
          k.kind = (if k.level = 0 then .leaf else .index) ∧ ∃ id : Arr 16, k.pageID = hexString id.bytes) ∧
    (∀ s t, Keylayout.normalizeStreamID s = s → Keylayout.normalizeStreamID t = t →
      (Hashes.sha256 (utf8 s) = Hashes.sha256 (utf8 t) → s = t) → (∀ (l : Sink.Layout) info q, info.streamID = s →
          (l.segmentPrefix t q).toList <+: (l.segmentKey info).toList → s = t ∧ info.partition = q) ∧
        ∀ catalogPrefix p q ref, (pagePrefix catalogPrefix t q).toList <+: (refPath catalogPrefix s p ref).toList →
          s = t ∧ p = q) ∧ (∀ catalogPrefix dataRoot streamID partition leafLimit indexLimit hashAlgo config,
      newConfig catalogPrefix dataRoot streamID partition leafLimit indexLimit hashAlgo = .ok config →
        (∀ ref, config.leafPagePath ref = leafPagePath catalogPrefix streamID partition ref.seqLo ref.seqHi ref.generation
            (hexString ref.pageID.bytes) ∧
          config.indexPagePath ref = indexPagePath catalogPrefix streamID partition ref.level ref.seqLo ref.seqHi
            ref.generation (hexString ref.pageID.bytes) ∧
          config.pagePath ref = refPath catalogPrefix streamID partition ref) ∧
        ∀ entry createdUnixMS, config.segmentURI entry = (Sink.newLayout dataRoot).segmentKey ⟨streamID, partition,
          entry.baseLSN, entry.writerEpoch, entry.writerTag, entry.segmentUUID, createdUnixMS⟩) ∧
    (∀ (config : Config) segment entry, config.leafEntry segment = .ok entry → config.segmentRef entry = segment) ∧
    (∀ (l : Sink.Layout) i j, i.streamID = j.streamID → i.partition = j.partition →
      (utf8 (l.segmentKey i) < utf8 (l.segmentKey j) ↔ i.baseLSN < j.baseLSN ∨ (i.baseLSN = j.baseLSN ∧
        (i.writerEpoch < j.writerEpoch ∨
          (i.writerEpoch = j.writerEpoch ∧ i.segmentUUID.bytes < j.segmentUUID.bytes))))) ∧
    (∀ catalogPrefix streamID partition r s, r.level = s.level →
      (utf8 (refPath catalogPrefix streamID partition r) < utf8 (refPath catalogPrefix streamID partition s) ↔
        r.seqHi < s.seqHi ∨ (r.seqHi = s.seqHi ∧ (r.seqLo < s.seqLo ∨ (r.seqLo = s.seqLo ∧
          (r.generation < s.generation ∨ (r.generation = s.generation ∧ r.pageID.bytes < s.pageID.bytes))))))) ∧
    (∀ (l : Sink.Layout) info baseLSN,
      utf8 (l.segmentLowerBound info.streamID info.partition baseLSN) < utf8 (l.segmentKey info) ↔ baseLSN ≤ info.baseLSN) ∧
    ∀ catalogPrefix streamID partition (ref : IndexEntry) seqHi,
      utf8 (pageEndLowerBound catalogPrefix streamID partition ref.level seqHi) <
        utf8 (refPath catalogPrefix streamID partition ref) ↔ seqHi ≤ ref.seqHi := by
  refine ⟨fun l info hepoch huuid => ?_, fun l streamID partition key k h => ?_, fun _ _ _ _ => parsePagePath_refPath,
    fun _ _ _ _ _ => parsePagePath_text, fun s t hs ht hsha => ⟨?_, ?_⟩, fun _ _ _ _ _ _ _ _ h => ?_,
    fun _ _ _ => segmentRef_leafEntry, fun l _ _ hstream hpartition => l.segmentKey_lt_iff hstream hpartition,
    fun _ _ _ _ _ hlevel => refPath_lt_iff hlevel, fun l _ _ => l.segmentLowerBound_lt_iff,
    fun _ _ _ _ _ => pageEndLowerBound_lt_iff⟩
  · exact l.parseSegmentKey_ok.2 ⟨rfl, hepoch, huuid, l.segmentKey_eq info⟩
  · obtain ⟨hkey, hepoch, huuid, htext⟩ := l.parseSegmentKey_ok.1 h
    refine ⟨hkey, hepoch, huuid, fun writerTag createdUnixMS => ?_⟩
    rw [l.segmentKey_eq]
    exact htext
  · rintro l info q rfl h
    have hfree := l.segmentPrefix_free (by rwa [hs, ht]) h
    rwa [hs, ht] at hfree
  · intro catalogPrefix p q ref h
    have hfree := pagePrefix_free (by rwa [hs, ht]) h
    rwa [hs, ht] at hfree
  · exact ⟨pagePath_eq (partitionPrefix_eq h), segmentURI_eq h⟩

end ObjLog.Blob
