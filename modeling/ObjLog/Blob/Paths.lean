import Mathlib.Data.List.TakeDrop
import ObjLog.Catengine.Config
/-!
# Page keys, `blob/paths.go`

`parsePagePath` reads the level and the bounds of a page off its key. The engine
writes such keys with `Config.pagePath`; what is parsed from one of those is what
the reference says (`parsePagePath_pagePath`).
-/

namespace ObjLog.Blob

open Lib Catformat Catengine

variable [Hashes] {partition : UInt32}

variable {config : Config}

variable {key catalogPrefix streamID : String} {k : PageObjectKey} {ref : IndexEntry}

inductive PageObjectKind where
  | leaf
  | index
deriving DecidableEq

structure PageObjectKey where
  key : String
  kind : PageObjectKind
  level : UInt8
  seqLo : UInt64
  seqHi : UInt64
  generation : UInt64
  pageID : String
deriving DecidableEq

def maxIndexLevel : Nat := 63

def normalizePrefix (catalogPrefix : String) : String :=
  let catalogPrefix := trimSlashes catalogPrefix
  if catalogPrefix = "" then defaultCatalogPrefix else catalogPrefix

def partitionPrefix (catalogPrefix streamID : String) (partition : UInt32) : String :=
  let streamID := Keylayout.normalizeStreamID streamID
  let bucket := Keylayout.bucket streamID partition
  if streamID = "" then normalizePrefix catalogPrefix ++ "/" ++ bucket ++ "/p" ++ padDec 8 partition.toNat
  else normalizePrefix catalogPrefix ++ "/" ++ bucket ++ "/streams/" ++ Keylayout.streamKey streamID ++ "/p" ++
    padDec 8 partition.toNat

def pagePrefix (catalogPrefix streamID : String) (partition : UInt32) : String :=
  partitionPrefix catalogPrefix streamID partition ++ "/pages/"

def headPath (catalogPrefix streamID : String) (partition : UInt32) : String :=
  partitionPrefix catalogPrefix streamID partition ++ "/head.plc"

def pageLevelPrefix (catalogPrefix streamID : String) (partition : UInt32) (level : UInt8) : String :=
  pagePrefix catalogPrefix streamID partition ++ "l" ++ padDec 2 level.toNat ++ "/"

def pageEndLowerBound (catalogPrefix streamID : String) (partition : UInt32) (level : UInt8) (seqHi : UInt64) : String :=
  let levelPrefix := pageLevelPrefix catalogPrefix streamID partition level
  if level = 0 then levelPrefix ++ "leaf-" ++ padDec 20 seqHi.toNat ++ "-"
  else levelPrefix ++ "index-l" ++ padDec 2 level.toNat ++ "-" ++ padDec 20 seqHi.toNat ++ "-"

def leafPagePath (catalogPrefix streamID : String) (partition : UInt32) (seqLo seqHi generation : UInt64)
    (pageID : String) : String :=
  partitionPrefix catalogPrefix streamID partition ++ "/pages/l00/leaf-" ++ padDec 20 seqHi.toNat ++ "-" ++
    padDec 20 seqLo.toNat ++ "-" ++ padDec 20 generation.toNat ++ "-" ++ pageID ++ ".plc"

def indexPagePath (catalogPrefix streamID : String) (partition : UInt32) (level : UInt8)
    (seqLo seqHi generation : UInt64) (pageID : String) : String :=
  partitionPrefix catalogPrefix streamID partition ++ "/pages/l" ++ padDec 2 level.toNat ++ "/index-l" ++
    padDec 2 level.toNat ++ "-" ++ padDec 20 seqHi.toNat ++ "-" ++ padDec 20 seqLo.toNat ++ "-" ++
    padDec 20 generation.toNat ++ "-" ++ pageID ++ ".plc"

def parsePageUint (value : List Char) : Option Nat := if value.all Char.isDigit then parseUint 64 value else none

/-- The name of a page before its fields. -/
def namePrefix (level : Nat) : String := if level > 0 then "index-l" ++ padDec 2 level ++ "-" else "leaf-"

def corruptKey (key text : String) : Err := .of .corruptCatalog (text ++ key.quote)

def parsePageFields (key : String) (level : Nat) : List (List Char) → Except Err PageObjectKey
  | [hi, lo, gen, id] => do
    failIf (byteLen hi ≠ 20 ∨ byteLen lo ≠ 20 ∨ byteLen gen ≠ 20 ∨ byteLen id ≠ 32)
      (corruptKey key "invalid page fields in ")
    match parsePageUint hi with
    | none => throw (corruptKey key "invalid page seq_hi in ")
    | some seqHi =>
      match parsePageUint lo with
      | none => throw (corruptKey key "invalid page seq_lo in ")
      | some seqLo => do
        failIf (seqHi < seqLo) (corruptKey key "invalid page seq_lo in ")
        match parsePageUint gen with
        | none => throw (corruptKey key "invalid page generation in ")
        | some generation => do
          failIf (generation = 0) (corruptKey key "invalid page generation in ")
          failIf (¬ id.all isLowerHex) (corruptKey key "invalid page id in ")
          let kind := if level > 0 then PageObjectKind.index else .leaf
          pure ⟨key, kind, UInt8.ofNat level, UInt64.ofNat seqLo, UInt64.ofNat seqHi, UInt64.ofNat generation,
            String.ofList id⟩
  | _ => throw (corruptKey key "invalid page fields in ")

def parsePageName (key : String) (level : Nat) (name : List Char) : Except Err PageObjectKey := do
  let start := (namePrefix level).toList
  failIf (¬ start <+: name ∨ ¬ ".plc".toList <:+ name) (corruptKey key "invalid page name ")
  let trimmed := (name.dropPrefix? start).getD name
  parsePageFields key level (((trimmed.dropSuffix? ".plc".toList).getD trimmed).splitOn '-')

def parsePagePath (catalogPrefix streamID : String) (partition : UInt32) (key : String) : Except Err PageObjectKey :=
  let pagePrefix := pagePrefix catalogPrefix streamID partition
  match key.toList.dropPrefix? pagePrefix.toList with
  | none => throw (.of .corruptCatalog s!"page key {key.quote} is outside prefix {pagePrefix.quote}")
  | some relative =>
    match relative.span (· ≠ '/') with
    | (_, []) => throw (corruptKey key "invalid page path ")
    | (levelDir, _ :: name) => do
      failIf (name.contains '/' ∨ byteLen levelDir ≠ 3 ∨ levelDir.head? ≠ some 'l') (corruptKey key "invalid page path ")
      match parseUint 8 (levelDir.drop 1) with
      | none => throw (corruptKey key "invalid page level in ")
      | some level => do
        failIf (level > maxIndexLevel) (corruptKey key "invalid page level in ")
        parsePageName key level name

/-! ## What an accepted key promises -/

omit [Hashes] in
theorem parsePageUint_lt {value : List Char} {n : Nat} (h : parsePageUint value = some n) : n < 2 ^ 64 := by
  unfold parsePageUint parseUint at h
  split at h
  · split at h
    · cases h
    · rename_i hbad
      simp only [not_or, not_le] at hbad
      rw [← Option.some.inj h]
      exact hbad.2.2
  · cases h

omit [Hashes] in
theorem parsePageFields_fields {level : Nat} {fields : List (List Char)}
    (h : parsePageFields key level fields = .ok k) : k.key = key ∧ k.level = UInt8.ofNat level ∧ k.seqLo ≤ k.seqHi := by
  unfold parsePageFields at h
  split at h
  · rename_i hi lo gen id
    simp only [checks_ok] at h
    obtain ⟨_, h⟩ := h
    cases hhi : parsePageUint hi with
    | none => simp [hhi] at h
    | some seqHi =>
      cases hlo : parsePageUint lo with
      | none => simp [hhi, hlo] at h
      | some seqLo =>
        cases hgen : parsePageUint gen with
        | none => simp [hhi, hlo, hgen] at h
        | some generation =>
          simp only [hhi, hlo, hgen, checks_ok] at h
          obtain ⟨hle, _, _, rfl⟩ := h
          refine ⟨rfl, rfl, UInt64.le_iff_toNat_le.2 ?_⟩
          rw [UInt64.toNat_ofNat_of_lt' (parsePageUint_lt hlo), UInt64.toNat_ofNat_of_lt' (parsePageUint_lt hhi)]
          exact Nat.le_of_not_lt hle
  · simp only [throw_ok] at h

theorem parsePagePath_fields (h : parsePagePath catalogPrefix streamID partition key = .ok k) :
    k.key = key ∧ key ≠ "" ∧ k.level.toNat ≤ maxIndexLevel ∧ k.seqLo ≤ k.seqHi := by
  unfold parsePagePath at h
  cases hrel : key.toList.dropPrefix? (pagePrefix catalogPrefix streamID partition).toList with
  | none => simp [hrel] at h
  | some relative =>
    have hne : key ≠ "" := by
      rintro rfl
      obtain ⟨p, hp, heq⟩ := List.dropPrefix?_eq_some_iff.1 hrel
      have hlen := congrArg List.length (eq_of_beq heq)
      have hnil : p = [] := (List.append_eq_nil_iff.1 hp.symm).1
      rw [hnil, pagePrefix, String.toList_append, List.length_append] at hlen
      exact absurd hlen (by simp)
    simp only [hrel] at h
    split at h
    · simp only [throw_ok] at h
    · simp only [checks_ok] at h
      obtain ⟨_, h⟩ := h
      split at h
      · simp only [throw_ok] at h
      · simp only [parsePageName, checks_ok] at h
        obtain ⟨hlevel, _, h⟩ := h
        obtain ⟨hkey, hl, hrange⟩ := parsePageFields_fields h
        refine ⟨hkey, hne, ?_, hrange⟩
        rw [hl, UInt8.toNat_ofNat_of_lt' (Nat.lt_of_le_of_lt (Nat.le_of_not_lt hlevel) (by decide))]
        exact Nat.le_of_not_lt hlevel

/-! ## The keys the engine writes -/

/-- Where a configuration keeps its objects. -/
theorem newConfig_roots {dataRoot : String} {leafLimit indexLimit : UInt32} {hashAlgo : HashAlgo}
    (h : newConfig catalogPrefix dataRoot streamID partition leafLimit indexLimit hashAlgo = .ok config) :
    config.catalogPrefix = normalizePrefix catalogPrefix ∧
      config.dataRoot = (if trimSlashes dataRoot = "" then defaultDataRoot else trimSlashes dataRoot) ∧
        config.streamID = Keylayout.normalizeStreamID streamID ∧ config.partition = partition := by
  unfold newConfig at h
  by_cases hempty : streamID = ""
  · simp only [hempty, ne_eq, not_true_eq_false, if_false, checks_ok, exists_eq_left'] at h
    obtain ⟨_, _, _, rfl⟩ := h
    exact ⟨rfl, rfl, by rw [hempty]; rfl, rfl⟩
  · simp only [hempty, ne_eq, not_false_eq_true, if_true, checks_ok, Keylayout.canonicalStreamID] at h
    obtain ⟨stream, ⟨_, _, _, _, hs⟩, _, _, _, rfl⟩ := h
    exact ⟨rfl, rfl, hs.symm, rfl⟩

/-- The two packages agree on where a partition lives. -/
theorem partitionPrefix_eq {dataRoot : String} {leafLimit indexLimit : UInt32} {hashAlgo : HashAlgo}
    (h : newConfig catalogPrefix dataRoot streamID partition leafLimit indexLimit hashAlgo = .ok config) :
    partitionPrefix catalogPrefix streamID partition = config.partitionPrefix := by
  obtain ⟨hroot, -, hstream, hpart⟩ := newConfig_roots h
  generalize hnorm : Keylayout.normalizeStreamID streamID = stream at hstream
  simp only [partitionPrefix, Config.partitionPrefix, hnorm, hroot, hstream, hpart]
  rw [← String.toList_inj]
  by_cases hs : stream = ""
  · rw [if_pos hs, if_neg (not_not.2 hs)]
    change _ = (normalizePrefix catalogPrefix ++ "/" ++ Keylayout.bucket stream partition ++ "/" ++
      ("p" ++ padDec 8 partition.toNat)).toList
    simp only [String.toList_append, List.append_assoc]
    rfl
  · rw [if_neg hs, if_pos hs]
    change _ = (normalizePrefix catalogPrefix ++ "/" ++ Keylayout.bucket stream partition ++ "/" ++ "streams" ++ "/" ++
      Keylayout.streamKey stream ++ "/" ++ ("p" ++ padDec 8 partition.toNat)).toList
    simp only [String.toList_append, List.append_assoc]
    rfl

/-- The fields of a page name. -/
def pageFields (ref : IndexEntry) : List (List Char) :=
  [(padDec 20 ref.seqHi.toNat).toList, (padDec 20 ref.seqLo.toNat).toList, (padDec 20 ref.generation.toNat).toList,
    (hexString ref.pageID.bytes).toList]

omit [Hashes] in
theorem toList_pageName (ref : IndexEntry) :
    (Config.pageName ref).toList = ['-'].intercalate (pageFields ref) ++ ".plc".toList := by
  simp [Config.pageName, pageFields, List.intercalate, List.intersperse]

/-- A key the engine writes: the directory of its level, then its name. -/
theorem toList_pagePath (config : Config) (ref : IndexEntry) : (config.pagePath ref).toList =
    (config.partitionPrefix ++ "/pages/").toList ++ (('l' :: (padDec 2 ref.level.toNat).toList) ++
      '/' :: ((namePrefix ref.level.toNat).toList ++ (Config.pageName ref).toList)) := by
  by_cases h0 : ref.level = 0
  · have hdir : (padDec 2 0).toList = ['0', '0'] := by decide
    simp [Config.pagePath, Config.leafPagePath, h0, namePrefix, hdir]
  · have hpos : 0 < ref.level.toNat := Nat.pos_of_ne_zero fun h => h0 (UInt8.toNat_inj.1 h)
    simp [Config.pagePath, Config.indexPagePath, h0, namePrefix, hpos]

omit [Hashes] in
theorem fields_lowerHex (ref : IndexEntry) : ∀ f ∈ pageFields ref, ∀ c ∈ f, isLowerHex c = true := by
  intro f hf c hc
  simp only [pageFields, List.mem_cons, List.not_mem_nil, or_false] at hf
  rcases hf with rfl | rfl | rfl | rfl
  · exact isLowerHex_of_isDigit (isDigit_of_mem_padDec hc)
  · exact isLowerHex_of_isDigit (isDigit_of_mem_padDec hc)
  · exact isLowerHex_of_isDigit (isDigit_of_mem_padDec hc)
  · exact isLowerHex_of_mem_hexString hc

omit [Hashes] in
theorem splitOn_fields (ref : IndexEntry) : (['-'].intercalate (pageFields ref)).splitOn '-' = pageFields ref := by
  refine List.splitOn_intercalate '-' ?_ (by simp [pageFields])
  intro f hf hdash
  exact absurd (fields_lowerHex ref f hf _ hdash) (by decide)

omit [Hashes] in
theorem slash_notMem_name (ref : IndexEntry) :
    '/' ∉ (namePrefix ref.level.toNat).toList ++ (Config.pageName ref).toList := by
  have hdigits : ∀ w n, '/' ∉ (padDec w n).toList := fun w n h => absurd (isDigit_of_mem_padDec h) (by decide)
  have hhex : '/' ∉ (hexString ref.pageID.bytes).toList := fun h => absurd (isLowerHex_of_mem_hexString h) (by decide)
  have hname : '/' ∉ (namePrefix ref.level.toNat).toList := by
    unfold namePrefix
    split
    · simp [hdigits]
    · decide
  simp [Config.pageName, hdigits, hhex, hname]

omit [Hashes] in
theorem parsePageUint_padDec {w n : Nat} (h : n < 2 ^ 64) : parsePageUint (padDec w n).toList = some n := by
  have hall : (padDec w n).toList.all Char.isDigit = true := List.all_eq_true.2 fun _ hc => isDigit_of_mem_padDec hc
  rw [parsePageUint, if_pos hall, parseUint_padDec h]

omit [Hashes] in
theorem byteLen_padDec (n : UInt64) : byteLen (padDec 20 n.toNat).toList = 20 := by
  rw [byteLen_of_lowerHex fun _ hc => isLowerHex_of_isDigit (isDigit_of_mem_padDec hc)]
  exact length_padDec (by decide) (Nat.lt_trans n.toNat_lt (by decide))

omit [Hashes] in
theorem byteLen_pageID (id : Arr 16) : byteLen (hexString id.bytes).toList = 32 := by
  rw [byteLen_of_lowerHex fun _ hc => isLowerHex_of_mem_hexString hc, length_hexString, id.width]

omit [Hashes] in
theorem span_append {l r : List Char} (h : ∀ c ∈ l, (decide (c ≠ '/')) = true) :
    (l ++ '/' :: r).span (· ≠ '/') = (l, '/' :: r) := by
  rw [List.span_eq_takeWhile_dropWhile, List.takeWhile_append_of_pos h, List.dropWhile_append_of_pos h]
  simp

/-- The key parsed from a reference. -/
def pageObjectKey (key : String) (ref : IndexEntry) : PageObjectKey where
  key := key
  kind := if ref.level.toNat > 0 then .index else .leaf
  level := ref.level
  seqLo := ref.seqLo
  seqHi := ref.seqHi
  generation := ref.generation
  pageID := hexString ref.pageID.bytes

omit [Hashes] in
theorem parsePageFields_ok : parsePageFields key ref.level.toNat (pageFields ref) = .ok k ↔
      ref.seqLo ≤ ref.seqHi ∧ ref.generation ≠ 0 ∧ k = pageObjectKey key ref := by
  have hhex : (hexString ref.pageID.bytes).toList.all isLowerHex = true :=
    List.all_eq_true.2 fun _ hc => isLowerHex_of_mem_hexString hc
  unfold pageFields parsePageFields
  simp only [parsePageUint_padDec (UInt64.toNat_lt _), byteLen_padDec, byteLen_pageID, hhex, checks_ok,
    UInt64.ofNat_toNat, UInt8.ofNat_toNat, String.ofList_toList, ne_eq, not_true_eq_false, or_self, not_false_eq_true,
    true_and, not_lt, ← UInt64.le_iff_toNat_le]
  have hgen : ref.generation.toNat = 0 ↔ ref.generation = 0 := UInt64.toNat_inj (b := 0)
  rw [hgen]
  exact and_congr_right fun _ => and_congr_right fun _ => eq_comm

omit [Hashes] in
theorem parsePageName_ok :
    parsePageName key ref.level.toNat ((namePrefix ref.level.toNat).toList ++ (Config.pageName ref).toList) = .ok k ↔
      ref.seqLo ≤ ref.seqHi ∧ ref.generation ≠ 0 ∧ k = pageObjectKey key ref := by
  have hsuffix : (['-'].intercalate (pageFields ref) ++ ".plc".toList).dropSuffix? ".plc".toList =
      some (['-'].intercalate (pageFields ref)) := List.dropSuffix?_eq_some_iff.2 ⟨_, rfl, BEq.refl _⟩
  have hends : ".plc".toList <:+ (namePrefix ref.level.toNat).toList ++
      (['-'].intercalate (pageFields ref) ++ ".plc".toList) := ⟨_, List.append_assoc _ _ _⟩
  simp only [parsePageName, List.dropPrefix?_append_of_beq _ (BEq.refl _), toList_pageName, Option.getD_some, hsuffix,
    splitOn_fields, checks_ok, List.prefix_append, hends, not_true_eq_false, or_self, not_false_eq_true, true_and,
    parsePageFields_ok]

/-- Parsing accepts the key of a reference whose bounds are in order, and reads off it what the reference says. -/
theorem parsePagePath_key (hkey : key.toList = (pagePrefix catalogPrefix streamID partition).toList ++
      (('l' :: (padDec 2 ref.level.toNat).toList) ++
        '/' :: ((namePrefix ref.level.toNat).toList ++ (Config.pageName ref).toList)))
    (hlevel : ref.level.toNat ≤ maxIndexLevel) : parsePagePath catalogPrefix streamID partition key = .ok k ↔
      ref.seqLo ≤ ref.seqHi ∧ ref.generation ≠ 0 ∧ k = pageObjectKey key ref := by
  have hdir : ∀ c ∈ 'l' :: (padDec 2 ref.level.toNat).toList, (decide (c ≠ '/')) = true := by
    intro c hc
    rw [decide_eq_true_eq]
    rintro rfl
    rcases List.mem_cons.1 hc with hc | hc
    · exact absurd hc (by decide)
    · exact absurd (isDigit_of_mem_padDec hc) (by decide)
  have hdirLen : byteLen ('l' :: (padDec 2 ref.level.toNat).toList) = 3 := by
    have hlow : ∀ c ∈ (padDec 2 ref.level.toNat).toList, isLowerHex c = true :=
      fun _ hc => isLowerHex_of_isDigit (isDigit_of_mem_padDec hc)
    have := byteLen_of_lowerHex hlow
    rw [length_padDec (by decide) (Nat.lt_of_le_of_lt hlevel (by decide))] at this
    simp only [byteLen, List.map_cons, List.sum_cons] at this ⊢
    rw [this]
    decide
  have hparse : parseUint 8 (padDec 2 ref.level.toNat).toList = some ref.level.toNat :=
    parseUint_padDec (Nat.lt_of_le_of_lt hlevel (by decide))
  have hslash := slash_notMem_name ref
  rw [← List.contains_iff_mem] at hslash
  unfold parsePagePath
  simp only [hkey, List.dropPrefix?_append_of_beq _ (BEq.refl _), span_append hdir, hdirLen, List.drop_one,
    List.tail_cons, hparse, List.head?_cons, checks_ok, hslash, ne_eq, not_true_eq_false, Bool.false_eq_true, or_self,
    not_false_eq_true, true_and, gt_iff_lt, not_lt, hlevel, parsePageName_ok]

theorem parsePagePath_pagePath (hroot : partitionPrefix catalogPrefix streamID partition = config.partitionPrefix)
    (hlevel : ref.level.toNat ≤ maxIndexLevel) :
    parsePagePath catalogPrefix streamID partition (config.pagePath ref) = .ok k ↔
      ref.seqLo ≤ ref.seqHi ∧ ref.generation ≠ 0 ∧ k = pageObjectKey (config.pagePath ref) ref :=
  parsePagePath_key (by rw [toList_pagePath, pagePrefix, hroot]) hlevel

end ObjLog.Blob
