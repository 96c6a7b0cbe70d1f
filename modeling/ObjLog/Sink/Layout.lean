import ObjLog.Keylayout
import ObjLog.Lib.KeyOrder
import ObjLog.Writer.Types
/-!
# Segment keys, `blob/sink/layout.go`

Where segments and their staging objects live, and the parsers that read a
segment's identity off its key. A key is accepted only when it is the key of what
is read off it (`parseSegmentName_ok`).
-/

namespace ObjLog.Sink

open Lib Writer
open List (append_assoc length_append)

variable [Hashes]

def defaultPrefix : String := "objlog"
def segmentFileSuffix : String := ".plseg"

/-- The prefix has no slash at either end; it is empty in the zero layout. -/
structure Layout where
  layoutPrefix : String
  trimmed : trimSlashes layoutPrefix = layoutPrefix
deriving DecidableEq

structure SegmentObjectKey where
  key : String
  baseLSN : UInt64
  writerEpoch : UInt64
  segmentUUID : Arr 16
deriving DecidableEq

structure StagingObjectKey where
  key : String
  baseLSN : UInt64
  writerEpoch : UInt64
  segmentUUID : Arr 16
  relativeKey : String
deriving DecidableEq

def newLayout (layoutPrefix : String) : Layout :=
  if trimSlashes layoutPrefix = "" then ⟨defaultPrefix, by decide⟩ else ⟨trimSlashes layoutPrefix, trimSlashes_idem layoutPrefix⟩

def segmentName (baseLSN writerEpoch : UInt64) (uuid : Arr 16) (suffix : String) : String :=
  "seg-" ++ padDec 20 baseLSN.toNat ++ "-e" ++ padDec 20 writerEpoch.toNat ++ "-" ++ hexString uuid.bytes ++ suffix

def parseFixedUint (value : List Char) : Except Err Nat := do
  failIf (value.length ≠ 20) (.plain s!"width={value.length}")
  failIf (¬value.all Char.isDigit) (.plain "non-decimal digit")
  match parseUint 64 value with
  | some n => pure n
  | none => throw (.plain s!"strconv.ParseUint: parsing {(String.ofList value).quote}: value out of range")

/-- The length of a segment name before its suffix. -/
def stemSize : Nat := 79

def parseSegmentName (name suffix : String) : Except Err (UInt64 × UInt64 × Arr 16) := do
  let bytes := byteChars name
  failIf (bytes.length ≠ stemSize + (byteChars suffix).length ∨ ¬byteChars suffix <:+ bytes)
    (.plain s!"sink: invalid segment object name {name.quote}")
  let stem := bytes.take (bytes.length - (byteChars suffix).length)
  failIf (stem.extract 0 4 ≠ "seg-".toList ∨ stem.extract 24 26 ≠ "-e".toList ∨ stem.extract 46 47 ≠ "-".toList)
    (.plain s!"sink: invalid segment object name {name.quote}")
  let baseLSN ← restate (parseFixedUint (stem.extract 4 24))
    (.within s!"sink: invalid segment base LSN in {name.quote}")
  let epoch ← restate (parseFixedUint (stem.extract 26 46))
    fun _ => .plain s!"sink: invalid segment writer epoch in {name.quote}"
  failIf (epoch = 0) (.plain s!"sink: invalid segment writer epoch in {name.quote}")
  let uuidText := stem.drop 47
  match hexDecode uuidText with
  | none => throw (.plain s!"sink: invalid segment UUID in {name.quote}")
  | some decoded => do
    failIf (decoded.length ≠ 16 ∨ uuidText ≠ uuidText.map Char.toLower)
      (.plain s!"sink: invalid segment UUID in {name.quote}")
    let uuid := Arr.ofBytes 16 decoded
    failIf (uuid = .zero 16) (.plain s!"sink: empty segment UUID in {name.quote}")
    pure (UInt64.ofNat baseLSN, UInt64.ofNat epoch, uuid)

namespace Layout

variable (l : Layout)

def root : String := if l.layoutPrefix = "" then defaultPrefix else l.layoutPrefix

def partitionObjectPrefix (kind streamID : String) (partition : UInt32) : String :=
  let streamID := Keylayout.normalizeStreamID streamID
  String.intercalate "/" ([l.root, kind, Keylayout.bucket streamID partition] ++
    (if streamID ≠ "" then ["streams", Keylayout.streamKey streamID] else []) ++
    ["p" ++ padDec 8 partition.toNat]) ++ "/"

def segmentKey (info : SegmentInfo) : String :=
  Keylayout.segmentObjectKey l.root info.streamID info.partition info.baseLSN info.writerEpoch info.segmentUUID

/-- What the segments of a partition are listed under. -/
def segmentPrefix (streamID : String) (partition : UInt32) : String := l.partitionObjectPrefix "segments" streamID partition

def segmentLowerBound (streamID : String) (partition : UInt32) (baseLSN : UInt64) : String :=
  l.segmentPrefix streamID partition ++ ("seg-" ++ padDec 20 baseLSN.toNat ++ "-")

def parseSegmentKey (streamID : String) (partition : UInt32) (key : String) : Except Err SegmentObjectKey :=
  let dir := l.segmentPrefix streamID partition
  match key.toList.dropPrefix? dir.toList with
  | none => throw (.plain s!"sink: segment key {key.quote} is outside prefix {dir.quote}")
  | some name => do
    failIf ('/' ∈ name) (.plain s!"sink: segment key {key.quote} is outside prefix {dir.quote}")
    let (baseLSN, epoch, uuid) ← parseSegmentName (String.ofList name) segmentFileSuffix
    pure ⟨key, baseLSN, epoch, uuid⟩

def partitionStagingPrefix (streamID : String) (partition : UInt32) : String := l.partitionObjectPrefix "staging" streamID partition

def stagingPrefix (info : SegmentInfo) : String :=
  l.partitionStagingPrefix info.streamID info.partition ++ segmentName info.baseLSN info.writerEpoch info.segmentUUID ""

def parseStagingKey (streamID : String) (partition : UInt32) (key : String) : Except Err StagingObjectKey :=
  let dir := l.partitionStagingPrefix streamID partition
  match key.toList.dropPrefix? dir.toList with
  | none => throw (.plain s!"sink: staging key {key.quote} is outside prefix {dir.quote}")
  | some relative =>
    match relative.span (· ≠ '/') with
    | (_, []) => throw (.plain s!"sink: staging key {key.quote} has no provider object")
    | (name, _ :: child) => do
      failIf (child = []) (.plain s!"sink: staging key {key.quote} has no provider object")
      let (baseLSN, epoch, uuid) ← parseSegmentName (String.ofList name) ""
      pure ⟨key, baseLSN, epoch, uuid, String.ofList child⟩

end Layout

/-! ## Segment names -/

section Names

omit [Hashes]

variable {baseLSN writerEpoch : UInt64} {uuid : Arr 16} {name suffix : String}

theorem toList_segmentName : (segmentName baseLSN writerEpoch uuid suffix).toList =
    "seg-".toList ++ ((padDec 20 baseLSN.toNat).toList ++ ("-e".toList ++ ((padDec 20 writerEpoch.toNat).toList ++
      ("-".toList ++ ((hexString uuid.bytes).toList ++ suffix.toList))))) := by
  simp [segmentName]

theorem ascii_segmentName (h : Ascii suffix.toList) : Ascii (segmentName baseLSN writerEpoch uuid suffix).toList := by
  rw [toList_segmentName]
  have hseg : Ascii "seg-".toList := by decide
  have he : Ascii "-e".toList := by decide
  have hdash : Ascii "-".toList := by decide
  exact hseg.append ((ascii_padDec _ _).append (he.append ((ascii_padDec _ _).append (hdash.append
    ((ascii_hexString _).append h)))))

theorem extract_at {pre mid post : List Char} {i j : Nat} (hi : i = pre.length) (hj : j = pre.length + mid.length) :
    (pre ++ (mid ++ post)).extract i j = mid := by
  subst hi hj
  simp [List.extract_eq_take_drop]

theorem extract_append {l : List Char} {i j k : Nat} (hij : i ≤ j) (hjk : j ≤ k) :
    l.extract i j ++ l.extract j k = l.extract i k := by
  simp only [List.extract_eq_take_drop]
  rw [show k - i = (j - i) + (k - j) by omega, List.take_add, List.drop_drop, Nat.add_sub_cancel' hij]

theorem length_padDec20 (n : UInt64) : (padDec 20 n.toNat).toList.length = 20 :=
  length_padDec (by decide) (Nat.lt_trans n.toNat_lt (by decide))

theorem length_uuid (uuid : Arr 16) : (hexString uuid.bytes).toList.length = 32 := by
  rw [length_hexString, uuid.width]

theorem parseFixedUint_ok {value : List Char} {n : Nat} :
    parseFixedUint value = .ok n ↔ n < 2 ^ 64 ∧ value = (padDec 20 n).toList := by
  constructor
  · intro h
    simp only [parseFixedUint, checks_ok, not_not, List.all_eq_true] at h
    obtain ⟨hlen, hdigits, h⟩ := h
    cases hparse : parseUint 64 value with
    | none => simp [hparse] at h
    | some m =>
      simp only [hparse, pure_ok] at h
      subst h
      rw [← byteLen_of_lowerHex fun c hc => isLowerHex_of_isDigit (hdigits c hc)] at hlen
      exact padDec_parseUint hparse (by decide) hlen
  · rintro ⟨hlt, rfl⟩
    have hlen : (padDec 20 n).toList.length = 20 := length_padDec (by decide) (Nat.lt_trans hlt (by decide))
    have hdigits : (padDec 20 n).toList.all Char.isDigit = true :=
      List.all_eq_true.2 fun _ hc => isDigit_of_mem_padDec hc
    simp only [parseFixedUint, parseUint_padDec hlt, checks_ok, hlen, hdigits, ne_eq, not_true_eq_false,
      not_false_eq_true, true_and]

/-- The stem of a name, as the parser cuts it. -/
theorem stem_extracts (baseLSN writerEpoch : UInt64) (uuid : Arr 16) :
    let stem := "seg-".toList ++ ((padDec 20 baseLSN.toNat).toList ++ ("-e".toList ++
      ((padDec 20 writerEpoch.toNat).toList ++ ("-".toList ++ (hexString uuid.bytes).toList))))
    stem.extract 0 4 = "seg-".toList ∧ stem.extract 4 24 = (padDec 20 baseLSN.toNat).toList ∧
      stem.extract 24 26 = "-e".toList ∧ stem.extract 26 46 = (padDec 20 writerEpoch.toNat).toList ∧
        stem.extract 46 47 = "-".toList ∧ stem.drop 47 = (hexString uuid.bytes).toList := by
  intro stem
  have hbase := length_padDec20 baseLSN
  have hepoch := length_padDec20 writerEpoch
  have hseg : "seg-".toList.length = 4 := rfl
  have he : "-e".toList.length = 2 := rfl
  have hdash : "-".toList.length = 1 := rfl
  refine ⟨?_, extract_at rfl (by rw [hbase]; rfl), ?_, ?_, ?_, ?_⟩
  · change ([] ++ stem).extract 0 4 = _
    exact extract_at rfl rfl
  · rw [show stem = ("seg-".toList ++ (padDec 20 baseLSN.toNat).toList) ++ ("-e".toList ++ _) by
      rw [append_assoc]]
    exact extract_at (by rw [length_append, hbase, hseg]) (by rw [length_append, hbase, hseg, he])
  · rw [show stem = ("seg-".toList ++ ((padDec 20 baseLSN.toNat).toList ++ "-e".toList)) ++
        ((padDec 20 writerEpoch.toNat).toList ++ ("-".toList ++ (hexString uuid.bytes).toList)) by
      simp only [append_assoc, stem]]
    exact extract_at (by simp only [length_append, hbase, hseg, he])
      (by simp only [length_append, hbase, hseg, he, hepoch])
  · rw [show stem = ("seg-".toList ++ ((padDec 20 baseLSN.toNat).toList ++ ("-e".toList ++
        (padDec 20 writerEpoch.toNat).toList))) ++ ("-".toList ++ (hexString uuid.bytes).toList) by
      simp only [append_assoc, stem]]
    exact extract_at (by simp only [length_append, hbase, hseg, he, hepoch])
      (by simp only [length_append, hbase, hseg, he, hepoch, hdash])
  · rw [show stem = ("seg-".toList ++ ((padDec 20 baseLSN.toNat).toList ++ ("-e".toList ++
        ((padDec 20 writerEpoch.toNat).toList ++ "-".toList)))) ++ (hexString uuid.bytes).toList by
      simp only [append_assoc, stem]]
    exact List.drop_left' (by simp only [length_append, hbase, hseg, he, hepoch, hdash])

/-- A name is accepted when it is the name of what is read off it. -/
theorem parseSegmentName_ok (hsuffix : Ascii suffix.toList) :
    parseSegmentName name suffix = .ok (baseLSN, writerEpoch, uuid) ↔
      writerEpoch ≠ 0 ∧ uuid ≠ .zero 16 ∧ name = segmentName baseLSN writerEpoch uuid suffix := by
  have hsuf := byteChars_ascii hsuffix
  constructor
  · intro h
    simp only [parseSegmentName, checks_ok, not_or, not_not, hsuf, parseFixedUint_ok] at h
    obtain ⟨⟨hlen, hends⟩, ⟨hseg, he, hdash⟩, base, ⟨hbaseLt, hbase⟩, epoch, ⟨hepochLt, hepoch⟩, hzero, h⟩ := h
    obtain ⟨stem, hstem⟩ := hends
    have hsize : stem.length = stemSize := by
      rw [← hstem, length_append] at hlen
      omega
    have htake : (byteChars name).take ((byteChars name).length - suffix.toList.length) = stem := by
      rw [← hstem, length_append, Nat.add_sub_cancel]
      exact List.take_left
    rw [hsuf, htake] at hseg he hdash hbase hepoch
    rw [htake] at h
    cases hdecode : hexDecode (stem.drop 47) with
    | none => simp [hdecode] at h
    | some decoded =>
      simp only [hdecode, checks_ok, not_or, not_not] at h
      obtain ⟨⟨hwidth, hlower⟩, hne, rfl, rfl, rfl⟩ := h
      have huuid : (hexString (Arr.ofBytes 16 decoded).bytes).toList = stem.drop 47 := by
        rw [Arr.bytes_ofBytes hwidth]
        exact hexString_hexDecode hdecode hlower.symm
      have hepochNat : (UInt64.ofNat epoch).toNat = epoch := UInt64.toNat_ofNat_of_lt' hepochLt
      refine ⟨fun h0 => hzero ?_, hne, byteChars_inj ?_⟩
      · rw [← hepochNat, h0]
        rfl
      · rw [byteChars_ascii (ascii_segmentName hsuffix), toList_segmentName, UInt64.toNat_ofNat_of_lt' hbaseLt, hepochNat,
          huuid, ← hbase, ← hepoch, ← hseg, ← he, ← hdash, ← hstem]
        -- the pieces, put together again
        have hall : stem.drop 47 = stem.extract 47 stemSize := by
          rw [List.extract_eq_take_drop, List.take_of_length_le (by rw [List.length_drop, hsize])]
        rw [hall]
        simp only [← append_assoc]
        rw [extract_append (by decide) (by decide), extract_append (by decide) (by decide),
          extract_append (by decide) (by decide), extract_append (by decide) (by decide),
          extract_append (by decide) (by decide), List.extract_eq_take_drop, List.drop_zero,
          List.take_of_length_le (by rw [hsize]; decide)]
  · rintro ⟨hepoch, huuid, rfl⟩
    obtain ⟨hseg, hbase, he, hepochText, hdash, huuidText⟩ :=
      stem_extracts baseLSN writerEpoch uuid
    generalize hstem : "seg-".toList ++ _ = stem at hseg hbase he hepochText hdash huuidText
    have hbytes : byteChars (segmentName baseLSN writerEpoch uuid suffix) = stem ++ suffix.toList := by
      rw [byteChars_ascii (ascii_segmentName hsuffix), toList_segmentName, ← hstem]
      simp only [append_assoc]
    have hsize : stem.length = stemSize := by
      rw [← hstem]
      simp only [length_append, length_padDec20, length_uuid]
      rfl
    have htake : (stem ++ suffix.toList).take ((stem ++ suffix.toList).length - suffix.toList.length) = stem := by
      rw [length_append, Nat.add_sub_cancel]
      exact List.take_left
    unfold parseSegmentName
    rw [hsuf, hbytes]
    dsimp only
    rw [htake, hseg, he, hdash, hbase, hepochText, huuidText, hexDecode_hexString]
    have hlower : (hexString uuid.bytes).toList.map Char.toLower = (hexString uuid.bytes).toList := by
      conv_rhs => rw [← List.map_id (hexString uuid.bytes).toList]
      exact List.map_congr_left fun c hc => toLower_of_lowerHex (isLowerHex_of_mem_hexString hc)
    simp only [checks_ok, parseFixedUint_ok]
    refine ⟨?_, by simp, baseLSN.toNat, ⟨UInt64.toNat_lt _, rfl⟩, writerEpoch.toNat, ⟨UInt64.toNat_lt _, rfl⟩,
      fun h0 => hepoch (UInt64.toNat_inj.1 h0), ?_, ?_, ?_⟩
    · simp only [length_append, hsize, ne_eq, not_true_eq_false, List.suffix_append, or_self, not_false_eq_true]
    · simp only [uuid.width, hlower, ne_eq, not_true_eq_false, or_self, not_false_eq_true]
    · rwa [Arr.ofBytes_bytes]
    · exact ⟨UInt64.ofNat_toNat, UInt64.ofNat_toNat, Arr.ofBytes_bytes _⟩

theorem slash_notMem_name : '/' ∉ (segmentName baseLSN writerEpoch uuid segmentFileSuffix).toList := by
  have hdigits : ∀ n, '/' ∉ (padDec 20 n).toList := fun n h => absurd (isDigit_of_mem_padDec h) (by decide)
  have hhex : '/' ∉ (hexString uuid.bytes).toList := fun h => absurd (isLowerHex_of_mem_hexString h) (by decide)
  have hseg : '/' ∉ "seg-".toList := by decide
  have he : '/' ∉ "-e".toList := by decide
  have hdash : '/' ∉ "-".toList := by decide
  have hsuf : '/' ∉ segmentFileSuffix.toList := by decide
  simp only [toList_segmentName, List.mem_append, hdigits, hhex, hseg, he, hdash, hsuf, or_self, not_false_eq_true]

/-- Names of one suffix sort by base LSN, then epoch, then UUID. -/
theorem segmentName_lt_iff {b c e f : UInt64} {u v : Arr 16} :
    (segmentName b e u suffix).toList < (segmentName c f v suffix).toList ↔
      b < c ∨ (b = c ∧ (e < f ∨ (e = f ∧ u.bytes < v.bytes))) := by
  have hmax : ∀ n : UInt64, n.toNat < 10 ^ 20 := fun n => Nat.lt_trans n.toNat_lt (by decide)
  have hpad : ∀ m n : UInt64, (padDec 20 m.toNat).toList = (padDec 20 n.toNat).toList ↔ m = n := fun m n => by
    rw [String.toList_inj, padDec_inj, UInt64.toNat_inj]
  have hirrefl : ∀ x : Char, ¬x < x := fun _ => lt_irrefl _
  rw [toList_segmentName, toList_segmentName, append_lt_append_left_iff hirrefl,
    append_lt_append_iff (by rw [length_padDec20, length_padDec20]), append_lt_append_left_iff hirrefl,
    append_lt_append_iff (by rw [length_padDec20, length_padDec20]), append_lt_append_left_iff hirrefl,
    append_lt_append_iff (by rw [length_uuid, length_uuid]), hexString_lt_iff,
    padDec_lt_iff (by decide) (hmax b) (hmax c), padDec_lt_iff (by decide) (hmax e) (hmax f), hpad, hpad,
    ← UInt64.lt_iff_toNat_lt, ← UInt64.lt_iff_toNat_lt]
  have hsuf : ¬suffix.toList < suffix.toList := lt_irrefl _
  simp only [hsuf, and_false, or_false]

end Names

namespace Layout

variable (l : Layout)

omit [Hashes] in
theorem trimSlashes_root : trimSlashes l.root = l.root := by
  unfold root
  split
  · decide
  · exact l.trimmed

/-- A segment's key is its name in the listing prefix of its partition. -/
theorem segmentKey_eq (info : SegmentInfo) : l.segmentKey info = l.segmentPrefix info.streamID info.partition ++
    segmentName info.baseLSN info.writerEpoch info.segmentUUID segmentFileSuffix := by
  rw [← String.toList_inj]
  simp only [segmentKey, Keylayout.segmentObjectKey, l.trimSlashes_root, segmentPrefix, partitionObjectPrefix,
    segmentName, segmentFileSuffix, String.toList_append, append_assoc]
  rfl

theorem toList_partitionObjectPrefix (kind streamID : String) (partition : UInt32) :
    (l.partitionObjectPrefix kind streamID partition).toList =
      l.root.toList ++ ('/' :: (kind.toList ++ ('/' :: Keylayout.partitionTail streamID partition))) := by
  unfold partitionObjectPrefix Keylayout.partitionTail
  by_cases hs : Keylayout.normalizeStreamID streamID = ""
  · simp only [hs, ne_eq, not_true_eq_false, if_false]
    change (l.root ++ "/" ++ kind ++ "/" ++ Keylayout.bucket "" partition ++ "/" ++
      ("p" ++ padDec 8 partition.toNat) ++ "/").toList = _
    simp only [String.toList_append, append_assoc]
    rfl
  · simp only [hs, ne_eq, not_false_eq_true, if_true]
    change (l.root ++ "/" ++ kind ++ "/" ++ Keylayout.bucket (Keylayout.normalizeStreamID streamID) partition ++ "/" ++
      "streams" ++ "/" ++ Keylayout.streamKey (Keylayout.normalizeStreamID streamID) ++ "/" ++
      ("p" ++ padDec 8 partition.toNat) ++ "/").toList = _
    simp only [String.toList_append, append_assoc]
    rfl

/-- A key is accepted when it is the key of what is read off it. -/
theorem parseSegmentKey_ok {streamID key : String} {partition : UInt32} {k : SegmentObjectKey} :
    l.parseSegmentKey streamID partition key = .ok k ↔ k.key = key ∧ k.writerEpoch ≠ 0 ∧ k.segmentUUID ≠ .zero 16 ∧
      key = l.segmentPrefix streamID partition ++
        segmentName k.baseLSN k.writerEpoch k.segmentUUID segmentFileSuffix := by
  have hsuffix : Ascii segmentFileSuffix.toList := by decide
  constructor
  · intro h
    unfold parseSegmentKey at h
    cases hdrop : key.toList.dropPrefix? (l.segmentPrefix streamID partition).toList with
    | none => simp [hdrop] at h
    | some name =>
      simp only [hdrop, checks_ok, Prod.exists, parseSegmentName_ok hsuffix] at h
      obtain ⟨-, baseLSN, epoch, uuid, ⟨hepoch, huuid, hname⟩, rfl⟩ := h
      refine ⟨rfl, hepoch, huuid, String.toList_inj.1 ?_⟩
      obtain ⟨p, hp, heq⟩ := List.dropPrefix?_eq_some_iff.1 hdrop
      rw [hp, eq_of_beq heq, String.toList_append, ← hname, String.toList_ofList]
  · rintro ⟨rfl, hepoch, huuid, hkey⟩
    have hslash : '/' ∉ (segmentName k.baseLSN k.writerEpoch k.segmentUUID segmentFileSuffix).toList := slash_notMem_name
    unfold parseSegmentKey
    dsimp only
    rw [hkey, String.toList_append, List.dropPrefix?_append_of_beq _ (BEq.refl _), ← hkey]
    simp only [String.ofList_toList, checks_ok, hslash, not_false_eq_true, true_and]
    exact ⟨_, (parseSegmentName_ok hsuffix).2 ⟨hepoch, huuid, rfl⟩, rfl⟩

/-! ## The order of keys -/

theorem segmentKey_lt_iff {i j : SegmentInfo} (hstream : i.streamID = j.streamID) (hpartition : i.partition = j.partition) :
    utf8 (l.segmentKey i) < utf8 (l.segmentKey j) ↔ i.baseLSN < j.baseLSN ∨ (i.baseLSN = j.baseLSN ∧
      (i.writerEpoch < j.writerEpoch ∨ (i.writerEpoch = j.writerEpoch ∧ i.segmentUUID.bytes < j.segmentUUID.bytes))) := by
  have hsuffix : Ascii segmentFileSuffix.toList := by decide
  rw [segmentKey_eq, segmentKey_eq, hstream, hpartition, utf8_lt_iff (ascii_segmentName hsuffix) (ascii_segmentName hsuffix),
    segmentName_lt_iff]

/-- The bound sorts before exactly the keys from its base LSN on. -/
theorem segmentLowerBound_lt_iff {info : SegmentInfo} {baseLSN : UInt64} :
    utf8 (l.segmentLowerBound info.streamID info.partition baseLSN) < utf8 (l.segmentKey info) ↔
      baseLSN ≤ info.baseLSN := by
  have hsuffix : Ascii segmentFileSuffix.toList := by decide
  have hbound : Ascii ("seg-" ++ padDec 20 baseLSN.toNat ++ "-").toList := by
    have hseg : Ascii "seg-".toList := by decide
    have hdash : Ascii "-".toList := by decide
    rw [String.toList_append, String.toList_append]
    exact (hseg.append (ascii_padDec _ _)).append hdash
  have hmax : ∀ n : UInt64, n.toNat < 10 ^ 20 := fun n => Nat.lt_trans n.toNat_lt (by decide)
  have hirrefl : ∀ x : Char, ¬x < x := fun _ => lt_irrefl _
  rw [segmentKey_eq, segmentLowerBound, utf8_lt_iff hbound (ascii_segmentName hsuffix), toList_segmentName,
    String.toList_append, String.toList_append, append_assoc, append_lt_append_left_iff hirrefl,
    append_lt_append_iff (by rw [length_padDec20, length_padDec20]),
    padDec_lt_iff (by decide) (hmax _) (hmax _), String.toList_inj, padDec_inj, UInt64.le_iff_toNat_le]
  -- at the same base LSN the key goes on where the bound ends
  have hrest : "-".toList < "-e".toList ++ ((padDec 20 info.writerEpoch.toNat).toList ++
      ("-".toList ++ ((hexString info.segmentUUID.bytes).toList ++ segmentFileSuffix.toList))) :=
    lt_append (a := ['-']) (List.cons_ne_nil 'e' _)
  simp only [hrest, and_true]
  omega

/-- No segment is listed under another partition, unless the hashes of their streams collide. -/
theorem segmentPrefix_free {info : SegmentInfo} {streamID : String} {partition : UInt32}
    (hsha : Hashes.sha256 (utf8 (Keylayout.normalizeStreamID info.streamID)) =
        Hashes.sha256 (utf8 (Keylayout.normalizeStreamID streamID)) →
      Keylayout.normalizeStreamID info.streamID = Keylayout.normalizeStreamID streamID)
    (h : (l.segmentPrefix streamID partition).toList <+: (l.segmentKey info).toList) :
    Keylayout.normalizeStreamID info.streamID = Keylayout.normalizeStreamID streamID ∧ info.partition = partition := by
  rw [segmentKey_eq, String.toList_append, segmentPrefix, segmentPrefix, toList_partitionObjectPrefix,
    toList_partitionObjectPrefix, append_assoc, List.prefix_append_right_inj, List.cons_append,
    List.cons_prefix_cons, append_assoc, List.prefix_append_right_inj, List.cons_append,
    List.cons_prefix_cons] at h
  exact Keylayout.partitionTail_free hsha h.2.2

end Layout

end ObjLog.Sink
