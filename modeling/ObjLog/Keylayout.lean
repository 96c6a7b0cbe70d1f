import ObjLog.Lib.Text
import ObjLog.Errors
/-!
# Object key layout, `keylayout`
-/

namespace ObjLog.Keylayout

open Lib

variable [Hashes]

def maxStreamIDBytes : Nat := 512

def normalizeStreamID (streamID : String) : String := trimSlashes streamID

/-- `unicode.IsControl`: the category Cc. -/
def isControl (r : Char) : Bool := r.toNat < 32 || (127 ≤ r.toNat && r.toNat < 160)

def checkPathSegment (segment : String) : Except Err Unit := do
  failIf (segment = "") (.of .invalidStreamID "contains an empty path segment")
  failIf (segment = "." ∨ segment = "..") (.of .invalidStreamID s!"contains reserved path segment {segment.quote}")

/-- A `String` is valid UTF-8, so the source's first check has no counterpart. -/
def canonicalStreamID (streamID : String) : Except Err String := do
  let streamID := normalizeStreamID streamID
  failIf (streamID = "") (.of .invalidStreamID "empty")
  failIf (streamID.utf8ByteSize > maxStreamIDBytes)
    (.of .invalidStreamID s!"length={streamID.utf8ByteSize} max={maxStreamIDBytes}")
  streamID.toList.forM fun r =>
    failIf (isControl r) (.of .invalidStreamID s!"contains control character {r.quote}")
  (splitSlashes streamID.toList).forM fun segment => checkPathSegment (String.ofList segment)
  pure streamID

/-- CRC-32C of the length-prefixed stream id and the partition. -/
def checksum (streamID : String) (partition : UInt32) : UInt32 :=
  let id := utf8 (normalizeStreamID streamID)
  Hashes.crc32c (putUint32 (UInt32.ofNat id.length) ++ (id ++ putUint32 partition))

/-- The low twelve bits in three lowercase hex digits. -/
def bucket (streamID : String) (partition : UInt32) : String :=
  String.ofList (List.leftpad 3 '0' (Nat.toDigits 16 ((checksum streamID partition).toNat % 4096)))

def streamKey (streamID : String) : String := hexString (Hashes.sha256 (utf8 (normalizeStreamID streamID))).bytes

def segmentObjectKey (dataRoot streamID : String) (partition : UInt32) (baseLSN writerEpoch : UInt64)
    (segmentUUID : Arr 16) : String :=
  let streamID := normalizeStreamID streamID
  let parts := [trimSlashes dataRoot, "segments", bucket streamID partition] ++
    (if streamID ≠ "" then ["streams", streamKey streamID] else []) ++ ["p" ++ padDec 8 partition.toNat]
  String.intercalate "/" parts ++ "/seg-" ++ padDec 20 baseLSN.toNat ++ "-e" ++ padDec 20 writerEpoch.toNat ++
    "-" ++ hexString segmentUUID.bytes ++ ".plseg"

/-! ## What tells partitions apart -/

/-- The end of every key prefix of a partition: its bucket, its stream and its number. -/
def partitionTail (streamID : String) (partition : UInt32) : List Char :=
  let streamID := normalizeStreamID streamID
  (bucket streamID partition).toList ++ ('/' :: ((if streamID ≠ "" then "streams/".toList ++ ((streamKey streamID).toList ++ ['/'])
    else []) ++ ('p' :: ((padDec 8 partition.toNat).toList ++ ['/']))))

theorem length_bucket (streamID : String) (partition : UInt32) : (bucket streamID partition).toList.length = 3 := by
  rw [bucket, String.toList_ofList, List.leftpad, List.length_append, List.length_replicate]
  have hle := (Nat.length_toDigits_le_iff (b := 16) (n := (checksum streamID partition).toNat % 4096) (k := 3)
    (by decide) (by decide)).2 (Nat.mod_lt _ (by decide))
  omega

omit [Hashes] in
theorem prefix_of_append {a b x y : List Char} (h : a ++ x <+: b ++ y) (hlen : a.length = b.length) :
    a = b ∧ x <+: y := by
  obtain ⟨t, ht⟩ := h
  rw [List.append_assoc] at ht
  obtain ⟨rfl, hrest⟩ := List.append_inj ht hlen
  exact ⟨rfl, t, hrest⟩

omit [Hashes] in
/-- Two texts up to the first slash. -/
theorem prefix_of_slash {a b x y : List Char} (h : a ++ '/' :: x <+: b ++ '/' :: y) (ha : '/' ∉ a) (hb : '/' ∉ b) :
    a = b := by
  induction a generalizing b with
  | nil =>
    cases b with
    | nil => rfl
    | cons c b =>
      obtain ⟨rfl, -⟩ := List.cons_prefix_cons.1 h
      exact absurd List.mem_cons_self hb
  | cons c a ih =>
    cases b with
    | nil =>
      obtain ⟨rfl, -⟩ := List.cons_prefix_cons.1 h
      exact absurd List.mem_cons_self ha
    | cons d b =>
      obtain ⟨rfl, hrest⟩ := List.cons_prefix_cons.1 h
      rw [ih hrest (fun hm => ha (List.mem_cons_of_mem _ hm)) fun hm => hb (List.mem_cons_of_mem _ hm)]

omit [Hashes] in
theorem partition_of_common {p q : UInt32} {x y : List Char}
    (h : (padDec 8 p.toNat).toList ++ '/' :: x <+: (padDec 8 q.toNat).toList ++ '/' :: y) : p = q := by
  have hdigits : ∀ n, '/' ∉ (padDec 8 n).toList := fun n hc => absurd (isDigit_of_mem_padDec hc) (by decide)
  exact UInt32.toNat_inj.1 (padDec_inj.1 (String.toList_inj.1 (prefix_of_slash h (hdigits _) (hdigits _))))

/-- No key of one partition starts as the keys of another do, unless the hashes of their streams collide. -/
theorem partitionTail_free {s t : String} {p q : UInt32} {x : List Char}
    (hsha : Hashes.sha256 (utf8 (normalizeStreamID s)) = Hashes.sha256 (utf8 (normalizeStreamID t)) →
      normalizeStreamID s = normalizeStreamID t)
    (h : partitionTail t q <+: partitionTail s p ++ x) : normalizeStreamID s = normalizeStreamID t ∧ p = q := by
  simp only [partitionTail, List.append_assoc, List.cons_append] at h
  obtain ⟨-, h⟩ := prefix_of_append h (by rw [length_bucket, length_bucket])
  rw [List.cons_prefix_cons] at h
  replace h := h.2
  by_cases hs : normalizeStreamID s = ""
  · by_cases ht : normalizeStreamID t = ""
    · simp only [hs, ht, ne_eq, not_true_eq_false, if_false, List.nil_append, List.cons_prefix_cons, true_and] at h
      exact ⟨hs.trans ht.symm, (partition_of_common h).symm⟩
    · simp only [hs, ht, ne_eq, not_true_eq_false, not_false_eq_true, if_true, if_false, List.nil_append] at h
      exact absurd (List.cons_prefix_cons.1 h).1 (by decide)
  · by_cases ht : normalizeStreamID t = ""
    · simp only [hs, ht, ne_eq, not_true_eq_false, not_false_eq_true, if_true, if_false, List.nil_append] at h
      exact absurd (List.cons_prefix_cons.1 h).1 (by decide)
    · simp only [hs, ht, ne_eq, not_false_eq_true, if_true, List.append_assoc, List.cons_append, List.nil_append] at h
      obtain ⟨-, h⟩ := prefix_of_append h rfl
      have hlen : ∀ u, (streamKey u).toList.length = 64 := fun u => by rw [streamKey, length_hexString, Arr.length_bytes]
      obtain ⟨hkey, h⟩ := prefix_of_append h (by rw [hlen, hlen])
      simp only [List.cons_prefix_cons, true_and] at h
      have hkeys := hexString_inj.1 (String.toList_inj.1 hkey)
      simp only [normalizeStreamID, trimSlashes_idem] at hkeys
      exact ⟨hsha (Arr.ext hkeys.symm), (partition_of_common h).symm⟩

end ObjLog.Keylayout
