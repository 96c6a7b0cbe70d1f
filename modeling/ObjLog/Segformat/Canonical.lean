import ObjLog.Segformat.Layout
/-!
# The parts of a segment object have one encoding

A parser that accepts some bytes has checked or read every one of them, so the
value it returns marshals to the same bytes. Field by field: each slice the
parser takes is the field the marshaller writes there, and the slices join up to
the whole.
-/

namespace ObjLog.Segformat

open Lib
open Catformat (Codec HashAlgo hashBytes)

variable {buf : Bytes} {t : Trailer} {entries : List BlockIndexEntry}

/-! ## The fixed parts -/

theorem marshal_filePreamble {p : FilePreamble} (h : parseFilePreamble buf = .ok p) : p.marshal = .ok buf := by
  simp only [parseFilePreamble, checks_ok, not_not, Bool.not_eq_true', Bool.not_eq_false] at h
  obtain ⟨hlen, hmagic, hversion, hsize, hzero, hvalid, rfl⟩ := h
  change buf.length = 64 at hlen
  have hz := zeros_slice (n := 2) buf hzero (by omega) (by omega)
  simp only [FilePreamble.marshal, checks_ok, hvalid, true_and]
  simp (disch := omega) only [FilePreamble.bytes, ← hmagic, ← hversion, ← hsize, hz, putUint16_slice, putUint32_slice,
    putUint64_slice, ofBytes_slice, slice_append]
  exact slice_self _ _ hlen

theorem marshal_blockPreamble {p : BlockPreamble} (h : parseBlockPreamble buf = .ok p) : p.marshal = .ok buf := by
  simp only [parseBlockPreamble, checks_ok, not_not, Bool.or_eq_true, not_or, Bool.not_eq_true', Bool.not_eq_false] at h
  obtain ⟨hlen, hmagic, hsize, ⟨hzero, hzero'⟩, hvalid, rfl⟩ := h
  change buf.length = 64 at hlen
  have hz := zeros_slice (n := 4) buf hzero (by omega) (by omega)
  have hz' := zeros_slice (n := 8) buf hzero' (by omega) (by omega)
  simp only [BlockPreamble.marshal, checks_ok, hvalid, true_and]
  simp (disch := omega) only [BlockPreamble.bytes, ← hmagic, ← hsize, hz, hz', putUint16_slice, putUint32_slice,
    putUint64_slice, putInt64_slice, slice_append]
  exact slice_self _ _ hlen

theorem marshal_indexPreamble {p : IndexPreamble} (h : parseIndexPreamble buf = .ok p) : p.marshal = .ok buf := by
  simp only [parseIndexPreamble, checks_ok, not_not, Bool.not_eq_true', Bool.not_eq_false] at h
  obtain ⟨hlen, hmagic, hsize, hzero, hvalid, rfl⟩ := h
  change buf.length = 64 at hlen
  have hz := zeros_slice (n := 40) buf hzero (by omega) (by omega)
  simp only [IndexPreamble.marshal, checks_ok, hvalid, true_and]
  simp (disch := omega) only [IndexPreamble.bytes, ← hmagic, ← hsize, hz, putUint16_slice, putUint32_slice,
    putUint64_slice, slice_append]
  exact slice_self _ _ hlen

theorem marshal_blockIndexEntry {e : BlockIndexEntry} (h : parseBlockIndexEntry buf = .ok e) : e.marshal = .ok buf := by
  simp only [parseBlockIndexEntry, checks_ok, not_not, Bool.or_eq_true, not_or, Bool.not_eq_true',
    Bool.not_eq_false] at h
  obtain ⟨hlen, ⟨hzero, hzero'⟩, hvalid, rfl⟩ := h
  change buf.length = 64 at hlen
  have hz := zeros_slice (n := 4) buf hzero (by omega) (by omega)
  have hz' := zeros_slice (n := 8) buf hzero' (by omega) (by omega)
  simp only [BlockIndexEntry.marshal, checks_ok, hvalid, true_and]
  simp (disch := omega) only [BlockIndexEntry.bytes, hz, hz', putUint32_slice, putUint64_slice, putInt64_slice,
    slice_append]
  exact slice_self _ _ hlen

/-! ## Marshalling and what it accepts -/

theorem FilePreamble.marshal_ok {p : FilePreamble} : p.marshal = .ok buf ↔ p.validate = .ok () ∧ p.bytes = buf := by
  simp [FilePreamble.marshal]

theorem BlockPreamble.marshal_ok {p : BlockPreamble} : p.marshal = .ok buf ↔ p.validate = .ok () ∧ p.bytes = buf := by
  simp [BlockPreamble.marshal]

theorem IndexPreamble.marshal_ok {p : IndexPreamble} : p.marshal = .ok buf ↔ p.validate = .ok () ∧ p.bytes = buf := by
  simp [IndexPreamble.marshal]

theorem BlockIndexEntry.marshal_ok {e : BlockIndexEntry} :
    e.marshal = .ok buf ↔ e.validate = .ok () ∧ e.bytes = buf := by
  simp [BlockIndexEntry.marshal]

/-! ## The index -/

/-- Entries that were read one after the other fill the bytes they were read from. -/
theorem parseEntries_bytes {n : Nat} (h : parseEntries n buf = .ok entries) (hlen : buf.length = n * 64) :
    entries.flatMap BlockIndexEntry.bytes = buf ∧ ∀ e ∈ entries, e.validate = .ok () := by
  induction n generalizing buf entries with
  | zero =>
    cases h
    rw [Nat.zero_mul] at hlen
    simp [List.eq_nil_of_length_eq_zero hlen]
  | succ n ih =>
    simp only [parseEntries, checks_ok] at h
    obtain ⟨e, he, rest, hrest, rfl⟩ := h
    obtain ⟨hvalid, hbytes⟩ := BlockIndexEntry.marshal_ok.1 (marshal_blockIndexEntry he)
    obtain ⟨hih, hall⟩ := ih hrest (by rw [List.length_drop]; simp only [blockIndexEntrySize]; omega)
    rw [List.flatMap_cons, hbytes, hih, List.take_append_drop]
    exact ⟨rfl, List.forall_mem_cons.2 ⟨hvalid, hall⟩⟩

/-- Only the last check of a trailer depends on the object size. -/
theorem Trailer.validate_totalSize {size : UInt64} (h : t.validate size = .ok ()) :
    t.validate t.totalSize = .ok () := by
  simp only [Trailer.validate, checks_ok] at h ⊢
  obtain ⟨h1, h2, h3, h4, h5, h6, h7, h8, h9, h10, h11, h12, h13, h14, h15, h16, h17, -⟩ := h
  exact ⟨h1, h2, h3, h4, h5, h6, h7, h8, h9, h10, h11, h12, h13, h14, h15, h16, h17, fun hne => hne.2 rfl⟩

section Hashed
variable [Hashes]

/-- The bytes of an index that was read. -/
theorem parseBlockIndex_ok {algo : HashAlgo} {preamble : IndexPreamble}
    (h : parseBlockIndex buf algo = .ok (preamble, entries)) :
    buf = preamble.bytes ++ entries.flatMap BlockIndexEntry.bytes ∧ preamble.validate = .ok () ∧
      (∀ e ∈ entries, e.validate = .ok ()) ∧ preamble.entryCount.toNat = entries.length ∧
        hashBytes algo (entries.flatMap BlockIndexEntry.bytes) = .ok preamble.indexHash := by
  simp only [parseBlockIndex, checks_ok, not_not, Nat.not_lt] at h
  obtain ⟨hmin, p, hp, hlen, hash, hhash, rfl, es, hes, rfl, rfl⟩ := h
  obtain ⟨hvalid, hbytes⟩ := IndexPreamble.marshal_ok.1 (marshal_indexPreamble hp)
  have hrest : (buf.drop indexPreambleSize).length = p.entryCount.toNat * 64 := by
    rw [List.length_drop, hlen]
    exact Nat.add_sub_cancel_left ..
  obtain ⟨hentries, hall⟩ := parseEntries_bytes hes hrest
  have hcount : p.entryCount.toNat = es.length := by
    rw [← hentries, length_entries] at hrest
    omega
  rw [hentries]
  exact ⟨by rw [hbytes, List.take_append_drop], hvalid, hall, hcount, hhash⟩

/-- An index that was read and is valid for a trailer marshals to the bytes it was read from. -/
theorem marshal_blockIndex {preamble : IndexPreamble}
    (h : parseBlockIndex buf t.hashAlgo = .ok (preamble, entries)) (hindex : validateIndex entries t = .ok ()) :
    marshalBlockIndex entries t = .ok (buf, preamble) := by
  obtain ⟨hbuf, hvalid, hall, hcount, hhash⟩ := parseBlockIndex_ok h
  simp only [IndexPreamble.validate, checks_ok, not_not, gt_iff_lt, UInt32.not_lt] at hvalid
  obtain ⟨hflags, hsize, hpos, hmax⟩ := hvalid
  have hne : entries ≠ [] := by
    rintro rfl
    exact hpos (UInt32.toNat_inj.1 hcount)
  have hfits : entries.length ≤ maxBlockCount := by
    rw [UInt32.le_iff_toNat_le, hcount] at hmax
    exact hmax
  have hpreamble : preamble = ⟨0, u32 blockIndexEntrySize, u32 entries.length, preamble.indexHash⟩ := by
    have hlen : preamble.entryCount = u32 entries.length := by rw [← hcount, u32, UInt32.ofNat_toNat]
    cases preamble
    simp_all
  simp only [marshalBlockIndex, checks_ok]
  refine ⟨hne, Nat.not_lt.2 hfits, hindex, validateEntries_ok.2 hall, _, hhash, ?_⟩
  exact ⟨by rw [← hpreamble, ← hbuf], hpreamble.symm⟩

/-! ## The trailer -/

theorem marshal_trailer {size : UInt64} (h : parseTrailer buf size = .ok t) : t.marshal = .ok buf := by
  simp only [parseTrailer, checks_ok, not_not, Bool.or_eq_true, not_or, Bool.not_eq_true', Bool.not_eq_false] at h
  obtain ⟨hlen, hmagic, hsize, hversion, ⟨⟨hzero, hzero'⟩, hzero''⟩, hvalid, hash, hhash, hsame, ht⟩ := h
  change buf.length = 192 at hlen
  have hz := zeros_slice (n := 2) buf hzero (by omega) (by omega)
  have hz' := zeros_slice (n := 4) buf hzero' (by omega) (by omega)
  have hz'' := zeros_slice (n := 48) buf hzero'' (by omega) (by omega)
  have hfront : t.front = slice buf 0 136 := by
    rw [← ht]
    simp (disch := omega) only [Trailer.front, ← hmagic, ← hversion, ← hsize, hz, hz', putUint16_slice, putUint32_slice,
      putUint64_slice, putInt64_slice, ofBytes_slice, slice_append]
  subst ht
  have hself := Trailer.validate_totalSize hvalid
  simp only [Trailer.marshal, checks_ok, hself, true_and]
  refine ⟨hash, ?_, ?_⟩
  · rw [← hhash, Trailer.bytes, hfront, hz'']
    rfl
  · rw [hsame, Trailer.bytes, hfront, hz'', putUint64_slice _ (by omega) (by omega),
      slice_append _ (by omega) (by omega), slice_append _ (by omega) (by omega)]
    exact slice_self _ _ hlen

end Hashed

end ObjLog.Segformat
