import ObjLog.Catformat.RoundTrip
/-!
# Marshalling what was parsed

The other direction of the round trip: a parser that accepts some bytes returns
a value that marshals to the same bytes. Every byte is a field that was read, a
reserved byte that was checked to be zero, or part of a hash that was computed
again.
-/

namespace ObjLog.Catformat

open Lib

variable {src encoded : Bytes} {n i offset : Nat}

/-! ## Entries and headers -/

theorem marshal_parseLeafEntry {e : LeafEntry} (h : parseLeafEntry src = .ok e) : marshalLeafEntry e = src := by
  simp only [parseLeafEntry, checks_ok, not_not, Bool.not_eq_true', Bool.not_eq_false] at h
  obtain ⟨hlen, hzero, rfl⟩ := h
  change src.length = 128 at hlen
  have hz := zeros_slice (n := 8) src hzero (by omega) (by omega)
  simp (disch := omega) only [marshalLeafEntry, hz, putUint16_slice, putUint32_slice, putUint64_slice, putInt64_slice,
    ofBytes_slice, slice_append]
  exact slice_self _ _ hlen

theorem marshal_parseIndexEntry {e : IndexEntry} (h : parseIndexEntry src = .ok e) : marshalIndexEntry e = src := by
  simp only [parseIndexEntry, checks_ok, not_not, Bool.or_eq_true, not_or, Bool.not_eq_true', Bool.not_eq_false] at h
  obtain ⟨hlen, ⟨hzero, hzero'⟩, rfl⟩ := h
  change src.length = 80 at hlen
  have hz := zeros_slice (n := 3) src hzero (by omega) (by omega)
  have hz' := zeros_slice (n := 8) src hzero' (by omega) (by omega)
  simp (disch := omega) only [marshalIndexEntry, hz, hz', putUint8_slice, putUint32_slice, putUint64_slice,
    putInt64_slice, ofBytes_slice, slice_append]
  exact slice_self _ _ hlen

theorem marshal_parsePageHeader {h : PageHeader} {magic : Magic} (hp : parsePageHeader src = .ok (h, magic)) :
    marshalPageHeader magic h = src := by
  simp only [parsePageHeader, checks_ok, not_not, Bool.or_eq_true, not_or, Bool.not_eq_true', Bool.not_eq_false] at hp
  obtain ⟨hlen, -, hversion, hsize, ⟨⟨hzero, hzero'⟩, hzero''⟩, -, rfl, rfl⟩ := hp
  change src.length = 128 at hlen
  have hz := zeros_slice (n := 1) src hzero (by omega) (by omega)
  have hz' := zeros_slice (n := 4) src hzero' (by omega) (by omega)
  have hz'' := zeros_slice (n := 8) src hzero'' (by omega) (by omega)
  simp (disch := omega) only [marshalPageHeader, ← hversion, ← hsize, hz, hz', hz'', putUint8_slice, putUint16_slice,
    putUint32_slice, putUint64_slice, putInt64_slice, ofBytes_slice, slice_append]
  exact slice_self _ _ hlen

theorem marshal_parseHeadHeader {h : HeadHeader} (hp : parseHeadHeader src = .ok h) : marshalHeadHeader h = src := by
  simp only [parseHeadHeader, checks_ok, not_not, Bool.or_eq_true, not_or, Bool.not_eq_true', Bool.not_eq_false] at hp
  obtain ⟨hlen, hmagic, hversion, hsize, ⟨hzero, hzero'⟩, -, -, -, rfl⟩ := hp
  change src.length = 192 at hlen
  have hz := zeros_slice (n := 4) src hzero (by omega) (by omega)
  have hz' := zeros_slice (n := 8) src hzero' (by omega) (by omega)
  simp (disch := omega) only [marshalHeadHeader, ← hmagic, ← hversion, ← hsize, hz, hz', putUint16_slice,
    putUint32_slice, putUint64_slice, ofBytes_slice, slice_append]
  exact slice_self _ _ hlen

theorem marshal_parseSectionHeader {level : UInt8} {count : UInt32} {entries : List IndexEntry}
    (h : parseSectionHeader src = .ok (level, count)) (hcount : entries.length = count.toNat) :
    marshalSectionHeader ⟨level, entries⟩ = src := by
  simp only [parseSectionHeader, checks_ok, not_not, Bool.or_eq_true, not_or, Bool.not_eq_true', Bool.not_eq_false] at h
  obtain ⟨hlen, hmagic, ⟨hzero, hzero'⟩, rfl, rfl⟩ := h
  change src.length = 16 at hlen
  have hz := zeros_slice (n := 3) src hzero (by omega) (by omega)
  have hz' := zeros_slice (n := 4) src hzero' (by omega) (by omega)
  simp (disch := omega) only [marshalSectionHeader, ← hmagic, hcount, UInt32.ofNat_toNat, hz, hz', putUint8_slice,
    putUint32_slice, slice_append]
  exact slice_self _ _ hlen

/-! ## Lists of entries -/

/-- Entries that were read one after the other fill the bytes they were read from. -/
theorem parseEntries_bytes {α : Type} {size : Nat} {parse : Bytes → Except Err α} {marshal : α → Bytes}
    (hback : ∀ src a, parse src = .ok a → marshal a = src) {name : Nat → String}
    {l : List α} (h : parseEntries size parse name encoded n i offset = .ok l) :
    l.length = n ∧ l.flatMap marshal = slice encoded offset (offset + n * size) := by
  induction n generalizing i offset l with
  | zero =>
    cases h
    exact ⟨rfl, (slice_empty _ (by omega)).symm⟩
  | succ n ih =>
    simp only [parseEntries, checks_ok] at h
    obtain ⟨a, ha, rest, hrest, rfl⟩ := h
    obtain ⟨hlen, hbytes⟩ := ih hrest
    have hend : offset + size + n * size = offset + (n + 1) * size := by rw [Nat.succ_mul]; omega
    rw [hend] at hbytes
    refine ⟨by rw [List.length_cons, hlen], ?_⟩
    rw [List.flatMap_cons, hback _ _ ha, hbytes]
    exact slice_append _ (by omega) (by rw [← hend]; omega)

theorem parseActive_bytes {bodyEnd last : Nat} {l : List LeafEntry}
    (h : parseActive encoded bodyEnd n i offset = .ok (l, last)) (hoffset : offset ≤ bodyEnd) :
    last ≤ bodyEnd ∧ offset ≤ last ∧ l.length = n ∧ l.flatMap marshalLeafEntry = slice encoded offset last := by
  induction n generalizing i offset l with
  | zero =>
    cases h
    exact ⟨hoffset, Nat.le_refl _, rfl, (slice_empty _ (Nat.le_refl _)).symm⟩
  | succ n ih =>
    simp only [parseActive, checks_ok, Prod.exists, Nat.not_lt] at h
    obtain ⟨hroom, a, ha, rest, last', hrest, rfl, rfl⟩ := h
    obtain ⟨hend, hle, hlen, hbytes⟩ := ih hrest hroom
    refine ⟨hend, by omega, by rw [List.length_cons, hlen], ?_⟩
    rw [List.flatMap_cons, marshal_parseLeafEntry ha, hbytes]
    exact slice_append _ (by omega) hle

theorem parseSections_bytes {header : HeadHeader} {bodyEnd last : Nat}
    {ss : List OpenIndexSection} (h : parseSections encoded bodyEnd header n i offset = .ok (ss, last)) :
    offset ≤ last ∧ ss.length = n ∧ ss.flatMap sectionBytes = slice encoded offset last := by
  induction n generalizing i offset ss with
  | zero =>
    cases h
    exact ⟨Nat.le_refl _, rfl, (slice_empty _ (Nat.le_refl _)).symm⟩
  | succ n ih =>
    simp only [parseSections, checks_ok, Prod.exists] at h
    obtain ⟨-, level, count, hheader, -, -, entries, hentries, rest, last', hrest, rfl, rfl⟩ := h
    obtain ⟨hcount, hentryBytes⟩ := parseEntries_bytes (fun _ _ => marshal_parseIndexEntry) hentries
    obtain ⟨hle, hlen, hbytes⟩ := ih hrest
    refine ⟨by omega, by rw [List.length_cons, hlen], ?_⟩
    rw [List.flatMap_cons, sectionBytes, marshal_parseSectionHeader hheader hcount, hentryBytes, hbytes,
      slice_append _ (by omega) (by omega), slice_append _ (by omega) hle]

/-! ## Trailer -/

section Trailer
variable [Hashes]

/-- A trailer that was verified is the one `appendTrailer` puts after the body. -/
theorem append_verifyTrailer {algo : HashAlgo} (h : verifyTrailer encoded algo = .ok ()) :
    appendTrailer (slice encoded 0 (encoded.length - trailerSize)) algo = .ok encoded := by
  simp only [verifyTrailer, checks_ok, not_not, Bool.or_eq_true, not_or, Bool.not_eq_true', Bool.not_eq_false,
    Nat.not_lt] at h
  obtain ⟨hmin, halgo, hmagic, hsize, ⟨hzero, hzero'⟩, trailerHash, htrailer, rfl, bodyHash, hbody, rfl⟩ := h
  change 32 ≤ encoded.length at hmin
  generalize ht : slice encoded (encoded.length - trailerSize) encoded.length = trailer at *
  have hlen : trailer.length = 32 := by
    rw [← ht]
    exact length_slice_of_le _ (by simp only [trailerSize]; omega) (Nat.le_refl _)
  have hz := zeros_slice (n := 2) trailer hzero (by omega) (by omega)
  have hz' := zeros_slice (n := 8) trailer hzero' (by omega) (by omega)
  have hbytes : ∀ hash, trailerBytes (uint64 (slice trailer 8 16)) hash =
      slice trailer 0 16 ++ (putUint64 hash ++ slice trailer 24 32) := by
    intro hash
    rw [trailerBytes, ← hmagic, ← hsize, hz, hz', putUint16_slice _ (by omega) (by omega),
      putUint64_slice _ (by omega) (by omega), ← slice_append trailer (a := 0) (b := 4) (c := 16) (by omega) (by omega),
      ← slice_append trailer (a := 4) (b := 6) (c := 16) (by omega) (by omega),
      ← slice_append trailer (a := 6) (b := 8) (c := 16) (by omega) (by omega)]
    simp only [List.append_assoc]
  simp only [appendTrailer, checks_ok]
  refine ⟨halgo, _, hbody, uint64 (slice trailer 16 24), ?_, ?_⟩
  · rw [hbytes]
    exact htrailer
  · rw [hbytes, putUint64_slice _ (by omega) (by omega), slice_append _ (by omega) (by omega),
      slice_append _ (by omega) (by omega), slice_self _ _ hlen, ← ht, slice_append _ (by omega) (by omega)]
    exact slice_self _ _ rfl

/-! ## Pages -/

/-- A page header that was accepted, and where its entries are. -/
theorem parsePage_ok {magic : Magic} {header : PageHeader} (h : parsePage encoded magic = .ok header) :
    marshalPageHeader magic header = slice encoded 0 pageHeaderSize ∧ verifyTrailer encoded header.hashAlgo = .ok () ∧
      encoded.length = pageHeaderSize + header.entryCount.toNat *
        (if magic = indexMagic then indexEntrySize else leafEntrySize) + trailerSize := by
  simp only [parsePage, checks_ok, not_not, Prod.exists] at h
  obtain ⟨-, header', magic', hheader, rfl, -, -, hsize, hverify, rfl⟩ := h
  exact ⟨marshal_parsePageHeader hheader, hverify, hsize⟩

theorem marshal_parseLeafPage {page : LeafPage} {id : Arr 16}
    (h : parseLeafPage encoded = .ok (page, id)) : marshalLeafPage page = .ok (encoded, id) := by
  simp only [parseLeafPage, checks_ok] at h
  obtain ⟨header, hpage, entries, hentries, hvalid, rfl, rfl⟩ := h
  obtain ⟨hheader, hverify, hsize⟩ := parsePage_ok hpage
  obtain ⟨-, hbytes⟩ := parseEntries_bytes (fun _ _ => marshal_parseLeafEntry) hentries
  rw [if_neg (by decide)] at hsize
  have hbody : leafPageBody ⟨header, entries⟩ = slice encoded 0 (encoded.length - trailerSize) := by
    rw [leafPageBody, hheader, hbytes, hsize, Nat.add_sub_cancel, slice_append _ (by omega) (by omega)]
  simp only [marshalLeafPage, bind_ok, hvalid, exists_unit, pure_ok, true_and, hbody]
  exact ⟨encoded, append_verifyTrailer hverify, rfl⟩

theorem marshal_parseIndexPage {page : IndexPage} {id : Arr 16}
    (h : parseIndexPage encoded = .ok (page, id)) : marshalIndexPage page = .ok (encoded, id) := by
  simp only [parseIndexPage, checks_ok] at h
  obtain ⟨header, hpage, entries, hentries, hvalid, rfl, rfl⟩ := h
  obtain ⟨hheader, hverify, hsize⟩ := parsePage_ok hpage
  obtain ⟨-, hbytes⟩ := parseEntries_bytes (fun _ _ => marshal_parseIndexEntry) hentries
  rw [if_pos rfl] at hsize
  have hbody : indexPageBody ⟨header, entries⟩ = slice encoded 0 (encoded.length - trailerSize) := by
    rw [indexPageBody, hheader, hbytes, hsize, Nat.add_sub_cancel, slice_append _ (by omega) (by omega)]
  simp only [marshalIndexPage, bind_ok, hvalid, exists_unit, pure_ok, true_and, hbody]
  exact ⟨encoded, append_verifyTrailer hverify, rfl⟩

/-! ## The head -/

theorem marshal_parseHead {head : Head} (h : parseHead encoded = .ok head) : marshalHead head = .ok encoded := by
  simp only [parseHead, checks_ok, not_not, Prod.exists, Nat.not_lt] at h
  obtain ⟨hmin, header, hheader, -, -, hverify, last, hlast, active, offset, hactive, sections, offset', hsections, rfl,
    hvalid, rfl⟩ := h
  simp only [headHeaderSize, leafEntrySize, trailerSize] at hmin
  obtain ⟨hend, hle, -, hactiveBytes⟩ := parseActive_bytes hactive (by
    simp only [headHeaderSize, leafEntrySize, trailerSize]; omega)
  obtain ⟨hle', -, hsectionBytes⟩ := parseSections_bytes hsections
  have hbody : headBody ⟨header, last, active, sections⟩ = slice encoded 0 (encoded.length - trailerSize) := by
    rw [headBody, marshal_parseHeadHeader hheader, marshal_parseLeafEntry hlast, hactiveBytes, hsectionBytes,
      slice_append _ hle hle', slice_append _ (by omega) (by omega), slice_append _ (by omega) (by omega)]
  simp only [marshalHead, checks_ok, hvalid, true_and, hbody]
  exact append_verifyTrailer hverify

end Trailer

end ObjLog.Catformat
