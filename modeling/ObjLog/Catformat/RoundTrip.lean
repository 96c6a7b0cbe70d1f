import ObjLog.Catformat.Codec
import ObjLog.Catformat.Valid
/-!
# Parsing what was marshalled

Every object a marshal function accepts is read back unchanged by its parser,
and a page with the same id. The proofs follow the layout: each slice a parser
takes is one field of the concatenation.
-/

namespace ObjLog.Catformat

open Lib
open List (append_assoc flatMap_cons length_append)

variable {body : Bytes}

variable {algo : HashAlgo} {encoded : Bytes}

/-! ## Entries and headers -/

@[simp] theorem length_marshalLeafEntry (e : LeafEntry) : (marshalLeafEntry e).length = 128 := by
  simp [marshalLeafEntry]

@[simp] theorem length_marshalIndexEntry (e : IndexEntry) : (marshalIndexEntry e).length = 80 := by
  simp [marshalIndexEntry]

theorem parse_marshalLeafEntry (e : LeafEntry) : parseLeafEntry (marshalLeafEntry e) = .ok e := by
  rw [parseLeafEntry, length_marshalLeafEntry]
  simp only [marshalLeafEntry]
  simp (disch := simp) [slice_right, slice_left, slice_self, leafEntrySize]

theorem parse_marshalIndexEntry (e : IndexEntry) : parseIndexEntry (marshalIndexEntry e) = .ok e := by
  rw [parseIndexEntry, length_marshalIndexEntry]
  simp only [marshalIndexEntry]
  simp (disch := simp) [slice_right, slice_left, slice_self, indexEntrySize]

theorem length_marshalPageHeader (magic : Magic) (h : PageHeader) (hm : magic.length = 4) :
    (marshalPageHeader magic h).length = 128 := by
  simp [marshalPageHeader, hm]

theorem parse_marshalPageHeader (magic : Magic) (h : PageHeader) (hm : magic = leafMagic ∨ magic = indexMagic)
    (hv : validateCommonPageHeader h = .ok ()) : parsePageHeader (marshalPageHeader magic h) = .ok (h, magic) := by
  have hl : magic.length = 4 := by rcases hm with rfl | rfl <;> rfl
  rw [parsePageHeader, length_marshalPageHeader magic h hl]
  simp only [marshalPageHeader]
  simp (disch := simp [hl]) [slice_right, slice_left, slice_self, pageHeaderSize, hl, hv]
  rcases hm with rfl | rfl <;> simp

@[simp] theorem length_marshalHeadHeader (h : HeadHeader) : (marshalHeadHeader h).length = 192 := by
  simp [marshalHeadHeader, headMagic]

theorem parse_marshalHeadHeader (h : HeadHeader) (ha : validateHashAlgo h.hashAlgo = .ok ())
    (hv : h.segmentLayoutVersion = segmentLayoutV1) (hl : h.leafLimit ≠ 0 ∧ h.leafLimit.toNat ≤ maxLeafEntries)
    (hi : 2 ≤ h.indexLimit ∧ h.indexLimit.toNat ≤ maxIndexEntries) : parseHeadHeader (marshalHeadHeader h) = .ok h := by
  have hm : headMagic.length = 4 := rfl
  rw [parseHeadHeader, length_marshalHeadHeader]
  simp only [marshalHeadHeader]
  simp (disch := simp [hm]) [slice_right, slice_left, slice_self, headHeaderSize, hm, ha]
  exact ⟨hv, by simpa using ⟨hl.1, hl.2, hi.1, hi.2⟩⟩

@[simp] theorem length_marshalSectionHeader (s : OpenIndexSection) : (marshalSectionHeader s).length = 16 := by
  simp [marshalSectionHeader, sectionMagic]

theorem parse_marshalSectionHeader (s : OpenIndexSection) :
    parseSectionHeader (marshalSectionHeader s) = .ok (s.level, UInt32.ofNat s.entries.length) := by
  have hm : sectionMagic.length = 4 := rfl
  rw [parseSectionHeader, length_marshalSectionHeader]
  simp only [marshalSectionHeader]
  simp (disch := simp [hm]) [slice_right, slice_left, slice_self, sectionHeaderSize, hm]

/-! ## Lists of entries -/

theorem length_flatMap_const {α : Type} (marshal : α → Bytes) (size : Nat) (hlen : ∀ a, (marshal a).length = size)
    (l : List α) : (l.flatMap marshal).length = l.length * size := by
  simp [List.length_flatMap, hlen]

/-- Entries laid out one after the other are read back in order. -/
theorem parseEntries_flatMap {α : Type} (size : Nat) (parse : Bytes → Except Err α) (marshal : α → Bytes)
    (hlen : ∀ a, (marshal a).length = size) (hrt : ∀ a, parse (marshal a) = .ok a) (name : Nat → String)
    (l : List α) : ∀ (pre post : Bytes) (i : Nat),
      parseEntries size parse name (pre ++ (l.flatMap marshal ++ post)) l.length i pre.length = .ok l := by
  induction l with
  | nil => intro pre post i; rfl
  | cons a l ih =>
    intro pre post i
    have hslice : slice (pre ++ ((a :: l).flatMap marshal ++ post)) pre.length (pre.length + size) = marshal a := by
      rw [slice_right _ _ _ _ (Nat.le_refl _), Nat.sub_self, Nat.add_sub_cancel_left, flatMap_cons,
        append_assoc, slice_left _ _ _ (hlen a)]
    -- the rest is the same layout with one entry moved to the front part
    have hrest := ih (pre ++ marshal a) post (i + 1)
    rw [length_append, hlen, append_assoc, ← append_assoc (marshal a), ← flatMap_cons] at hrest
    rw [List.length_cons, parseEntries, hslice, hrt, hrest]
    rfl

/-! ## Trailer -/

@[simp] theorem length_trailerBytes (a b : UInt64) : (trailerBytes a b).length = 32 := by
  simp [trailerBytes, trailerMagic]

theorem toNat_count {n : Nat} (h : n ≤ 1024) : (UInt32.ofNat n).toNat = n :=
  UInt32.toNat_ofNat_of_lt (by simp [UInt32.size]; omega)

section Trailer
variable [Hashes]

theorem hashBytes_ok (h : validateHashAlgo algo = .ok ()) (data : Bytes) : ∃ x, hashBytes algo data = .ok x := by
  simp only [validateHashAlgo, restate_ok, HashAlgo.validate, failIf_ok] at h
  unfold hashBytes
  by_cases h1 : algo = .crc32c
  · exact ⟨_, if_pos h1⟩
  · have h2 : algo = .xxh64 := by by_contra h2; exact h ⟨h1, h2⟩
    exact ⟨_, by rw [if_neg h1, if_pos h2]⟩

theorem appendTrailer_ok (h : validateHashAlgo algo = .ok ()) (body : Bytes) :
    ∃ encoded, appendTrailer body algo = .ok encoded := by
  obtain ⟨x, hx⟩ := hashBytes_ok h body
  obtain ⟨y, hy⟩ := hashBytes_ok h (trailerBytes x 0)
  exact ⟨body ++ trailerBytes x y, by simp [appendTrailer, h, hx, hy]⟩

section
variable (h : appendTrailer body algo = .ok encoded)
include h

/-- What `appendTrailer` produces. -/
theorem appendTrailer_inv :
    ∃ bodyHash trailerHash, validateHashAlgo algo = .ok () ∧ hashBytes algo body = .ok bodyHash ∧
      hashBytes algo (trailerBytes bodyHash 0) = .ok trailerHash ∧
      encoded = body ++ trailerBytes bodyHash trailerHash := by
  simp only [appendTrailer, bind_ok, pure_ok] at h
  obtain ⟨_, hv, x, hx, y, hy, rfl⟩ := h
  exact ⟨x, y, hv, hx, hy, rfl⟩

theorem length_appendTrailer : encoded.length = body.length + 32 := by
  obtain ⟨x, y, -, -, -, rfl⟩ := appendTrailer_inv h
  simp

theorem body_appendTrailer : slice encoded 0 (encoded.length - trailerSize) = body := by
  obtain ⟨x, y, -, -, -, rfl⟩ := appendTrailer_inv h
  exact slice_left _ _ _ (by simp [trailerSize])

theorem verify_appendTrailer : verifyTrailer encoded algo = .ok () := by
  have hbody := body_appendTrailer h
  have hlen := length_appendTrailer h
  obtain ⟨x, y, hv, hx, hy, rfl⟩ := appendTrailer_inv h
  have htrailer : slice (body ++ trailerBytes x y) ((body ++ trailerBytes x y).length - trailerSize)
      (body ++ trailerBytes x y).length = trailerBytes x y := by
    rw [hlen, show body.length + 32 - trailerSize = body.length from rfl, slice_right _ _ _ _ (Nat.le_refl _)]
    exact (by rw [Nat.sub_self]; exact slice_self _ _ (by simp))
  have hm : trailerMagic.length = 4 := rfl
  -- the zeroed trailer the hash is checked against is the one it was taken from
  have hzero : slice (trailerBytes x y) 0 16 ++ (zeros 8 ++ slice (trailerBytes x y) 24 32) = trailerBytes x 0 := by
    have h16 : slice (trailerBytes x y) 0 16 =
        trailerMagic ++ (putUint16 (UInt16.ofNat trailerSize) ++ (zeros 2 ++ putUint64 x)) := by
      have := slice_left (trailerMagic ++ (putUint16 (UInt16.ofNat trailerSize) ++ (zeros 2 ++ putUint64 x)))
        (putUint64 y ++ zeros 8) 16 (by simp [hm])
      simpa [trailerBytes] using this
    rw [h16, show zeros 8 = putUint64 0 from rfl]
    simp only [trailerBytes]
    simp (disch := simp [hm]) [slice_right, slice_self, hm]
  simp only [verifyTrailer, hbody, htrailer, hzero, hy, hx]
  simp only [trailerBytes]
  simp (disch := simp [hm]) [slice_right, slice_left, slice_self, hm, hv, trailerSize]

end

/-! ## Pages -/

/-- The header and the entries of a page are read back. -/
theorem parsePage_appendTrailer {α : Type} {magic : Magic} {header : PageHeader} {size max : Nat} {entries : List α}
    {parse : Bytes → Except Err α} {marshal : α → Bytes} (name : Nat → String)
    (hm : magic = leafMagic ∧ size = leafEntrySize ∧ max = maxLeafEntries ∨
      magic = indexMagic ∧ size = indexEntrySize ∧ max = maxIndexEntries)
    (hv : validateCommonPageHeader header = .ok ()) (hs : header.entrySize.toNat = size) (hne : entries ≠ [])
    (hlimit : entries.length ≤ max) (hc : header.entryCount = UInt32.ofNat entries.length)
    (hsize : ∀ a, (marshal a).length = size) (hrt : ∀ a, parse (marshal a) = .ok a)
    (h : appendTrailer (marshalPageHeader magic header ++ entries.flatMap marshal) header.hashAlgo = .ok encoded) :
    parsePage encoded magic = .ok header ∧
      parseEntries size parse name encoded header.entryCount.toNat 0 pageHeaderSize = .ok entries := by
  have hmm : magic = leafMagic ∨ magic = indexMagic := hm.imp (·.1) (·.1)
  have hlen4 : magic.length = 4 := by rcases hmm with rfl | rfl <;> rfl
  have hcnt : header.entryCount.toNat = entries.length := by
    rw [hc, toNat_count (by rcases hm with ⟨-, -, rfl⟩ | ⟨-, -, rfl⟩ <;> exact hlimit)]
  have hpos : header.entryCount ≠ 0 := fun h0 => hne (List.length_eq_zero_iff.1 (by rw [← hcnt, h0]; rfl))
  have hlen := length_appendTrailer h
  rw [length_append, length_marshalPageHeader _ _ hlen4, length_flatMap_const marshal _ hsize, ← hcnt] at hlen
  have hver := verify_appendTrailer h
  obtain ⟨x, y, -, -, -, hbytes⟩ := appendTrailer_inv h
  rw [append_assoc] at hbytes
  have hhead : slice encoded 0 pageHeaderSize = marshalPageHeader magic header := by
    rw [hbytes]
    exact slice_left _ _ _ (length_marshalPageHeader _ _ hlen4)
  have hentry : (if magic = indexMagic then indexEntrySize else leafEntrySize) = size := by
    rcases hm with ⟨rfl, rfl, -⟩ | ⟨rfl, rfl, -⟩ <;> decide
  have hmax : (if magic = indexMagic then maxIndexEntries else maxLeafEntries) = max := by
    rcases hm with ⟨rfl, -, rfl⟩ | ⟨rfl, -, rfl⟩ <;> decide
  constructor
  · simp only [parsePage, hhead, parse_marshalPageHeader magic header hmm hv, hentry, hmax]
    simp [hs, hpos, hcnt ▸ hlimit, hlen, pageHeaderSize, trailerSize]
    omega
  · have := parseEntries_flatMap size parse marshal hsize hrt name entries (marshalPageHeader magic header)
      (trailerBytes x y) 0
    rwa [length_marshalPageHeader _ _ hlen4, ← hbytes, ← hcnt] at this

theorem parse_marshalLeafPage {page : LeafPage} {id : Arr 16}
    (h : marshalLeafPage page = .ok (encoded, id)) : parseLeafPage encoded = .ok (page, id) := by
  simp only [marshalLeafPage, bind_ok, pure_ok, Prod.mk.injEq] at h
  obtain ⟨_, hvalid, encoded', henc, rfl, rfl⟩ := h
  have hv := (validateLeafPage_ok page).1 hvalid
  obtain ⟨hparse, hentries⟩ := parsePage_appendTrailer (fun i => s!"leaf entry {i}") (.inl ⟨rfl, rfl, rfl⟩) hv.common
    hv.entrySize hv.nonempty hv.limit hv.entryCount length_marshalLeafEntry parse_marshalLeafEntry henc
  simp only [parseLeafPage, hparse, body_appendTrailer henc, bind_ok, hentries, Except.ok.injEq, exists_eq_left', hvalid,
    pure_ok, exists_unit, true_and]

theorem parse_marshalIndexPage {page : IndexPage} {id : Arr 16}
    (h : marshalIndexPage page = .ok (encoded, id)) : parseIndexPage encoded = .ok (page, id) := by
  simp only [marshalIndexPage, bind_ok, pure_ok, Prod.mk.injEq] at h
  obtain ⟨_, hvalid, encoded', henc, rfl, rfl⟩ := h
  have hv := (validateIndexPage_ok page).1 hvalid
  obtain ⟨hparse, hentries⟩ := parsePage_appendTrailer (fun i => s!"index entry {i}") (.inr ⟨rfl, rfl, rfl⟩) hv.common
    hv.entrySize hv.nonempty hv.limit hv.entryCount length_marshalIndexEntry parse_marshalIndexEntry henc
  simp only [parseIndexPage, hparse, body_appendTrailer henc, bind_ok, hentries, Except.ok.injEq, exists_eq_left', hvalid,
    pure_ok, exists_unit, true_and]

end Trailer

/-! ## The head -/

theorem parseActive_flatMap (bodyEnd : Nat) (l : List LeafEntry) : ∀ (pre post : Bytes) (i : Nat),
    pre.length + l.length * 128 ≤ bodyEnd →
      parseActive (pre ++ (l.flatMap marshalLeafEntry ++ post)) bodyEnd l.length i pre.length =
        .ok (l, pre.length + l.length * 128) := by
  induction l with
  | nil => intro pre post i _; rfl
  | cons a l ih =>
    intro pre post i hend
    rw [List.length_cons] at hend
    have hslice : slice (pre ++ ((a :: l).flatMap marshalLeafEntry ++ post)) pre.length (pre.length + 128) =
        marshalLeafEntry a := by
      rw [slice_right _ _ _ _ (Nat.le_refl _), Nat.sub_self, Nat.add_sub_cancel_left, flatMap_cons,
        append_assoc, slice_left _ _ _ (length_marshalLeafEntry a)]
    have hrest := ih (pre ++ marshalLeafEntry a) post (i + 1) (by rw [length_append, length_marshalLeafEntry]; omega)
    rw [length_append, length_marshalLeafEntry, append_assoc, ← append_assoc (marshalLeafEntry a),
      ← flatMap_cons] at hrest
    have hroom : ¬bodyEnd < pre.length + 128 := by omega
    simp only [List.length_cons, parseActive, hslice, parse_marshalLeafEntry, checks_ok, hroom, not_false_iff,
      true_and, Except.ok.injEq, exists_eq_left', leafEntrySize, hrest]
    omega

theorem length_sectionBytes (s : OpenIndexSection) : (sectionBytes s).length = 16 + s.entries.length * 80 := by
  rw [sectionBytes, length_append, length_marshalSectionHeader,
    length_flatMap_const marshalIndexEntry _ length_marshalIndexEntry]

theorem parseSections_flatMap (bodyEnd : Nat) (header : HeadHeader) (hlim : header.indexLimit.toNat ≤ maxIndexEntries)
    (ss : List OpenIndexSection) : ∀ (pre post : Bytes) (i : Nat),
      (∀ s ∈ ss, s.entries.length < header.indexLimit.toNat) → pre.length + (ss.flatMap sectionBytes).length ≤ bodyEnd →
      parseSections (pre ++ (ss.flatMap sectionBytes ++ post)) bodyEnd header ss.length i pre.length =
        .ok (ss, pre.length + (ss.flatMap sectionBytes).length) := by
  induction ss with
  | nil => intro pre post i _ _; rfl
  | cons s ss ih =>
    intro pre post i hcount hend
    have hs := hcount s (by simp)
    have hcnt : (UInt32.ofNat s.entries.length).toNat = s.entries.length :=
      toNat_count (by simp only [maxIndexEntries] at hlim; omega)
    rw [flatMap_cons, length_append, length_sectionBytes] at hend
    have hslice : slice (pre ++ ((s :: ss).flatMap sectionBytes ++ post)) pre.length (pre.length + 16) =
        marshalSectionHeader s := by
      rw [slice_right _ _ _ _ (Nat.le_refl _), Nat.sub_self, Nat.add_sub_cancel_left, flatMap_cons, sectionBytes,
        append_assoc, append_assoc, slice_left _ _ _ (length_marshalSectionHeader s)]
    have hentries := parseEntries_flatMap indexEntrySize parseIndexEntry marshalIndexEntry length_marshalIndexEntry
      parse_marshalIndexEntry (fun j => s!"head section level={s.level} entry={j}") s.entries
      (pre ++ marshalSectionHeader s) (ss.flatMap sectionBytes ++ post) 0
    have hlayout : (pre ++ marshalSectionHeader s) ++ (s.entries.flatMap marshalIndexEntry ++
        (ss.flatMap sectionBytes ++ post)) = pre ++ ((s :: ss).flatMap sectionBytes ++ post) := by
      simp [sectionBytes]
    have hrest := ih (pre ++ sectionBytes s) post (i + 1) (fun t ht => hcount t (by simp [ht]))
      (by rw [length_append, length_sectionBytes]; omega)
    have hlayout' : (pre ++ sectionBytes s) ++ (ss.flatMap sectionBytes ++ post) =
        pre ++ ((s :: ss).flatMap sectionBytes ++ post) := by simp
    rw [hlayout, length_append, length_marshalSectionHeader] at hentries
    rw [hlayout', length_append, length_sectionBytes] at hrest
    have h1 : ¬bodyEnd < pre.length + 16 := by omega
    have h2 : ¬(UInt32.ofNat s.entries.length ≥ header.indexLimit ∨ s.entries.length > maxIndexEntries) := by
      rintro (h | h)
      · rw [ge_iff_le, UInt32.le_iff_toNat_le, hcnt] at h; omega
      · omega
    have h3 : ¬bodyEnd < pre.length + (16 + s.entries.length * 80) := by omega
    have hoff : pre.length + 16 + s.entries.length * 80 = pre.length + (16 + s.entries.length * 80) := by omega
    have hlen : ((s :: ss).flatMap sectionBytes).length =
        16 + s.entries.length * 80 + (ss.flatMap sectionBytes).length := by
      rw [flatMap_cons, length_append, length_sectionBytes]
    simp only [indexEntrySize] at hentries
    simp only [List.length_cons, parseSections, hslice, parse_marshalSectionHeader, checks_ok, h1, h2, h3, hcnt,
      not_false_iff, true_and, Except.ok.injEq, exists_eq_left', sectionHeaderSize, hentries, indexEntrySize, hoff,
      hrest, hlen]
    omega

theorem parse_marshalHead [Hashes] {head : Head} (h : marshalHead head = .ok encoded) :
    parseHead encoded = .ok head := by
  simp only [marshalHead, checks_ok] at h
  obtain ⟨hvalid, henc⟩ := h
  have hv := (validateHead_ok head).1 hvalid
  have hh := hv.header
  have hlim : head.header.indexLimit.toNat ≤ 1024 := hh.indexLimit
  have hleaf : head.header.leafLimit.toNat ≤ 1024 := hh.leafLimit
  have hactive : head.header.activeCount.toNat = head.active.length := by
    rw [hh.activeCount, toNat_count (by have := hh.active; omega)]
  have hlevels : head.header.levelCount.toNat = head.sections.length := by
    rw [hh.levelCount, toNat_count (by have := hh.levels; simp only [maxOpenIndexLevel, maxIndexLevel] at this; omega)]
  have hlen := length_appendTrailer henc
  have hbodyLen : (headBody head).length =
      192 + 128 + head.active.length * 128 + (head.sections.flatMap sectionBytes).length := by
    rw [headBody, length_append, length_append, length_append, length_marshalHeadHeader,
      length_marshalLeafEntry, length_flatMap_const marshalLeafEntry _ length_marshalLeafEntry]
    omega
  have hver := verify_appendTrailer henc
  have halgo : validateHashAlgo head.header.hashAlgo = .ok () := by
    simp only [validateHashAlgo, restate_ok, hh.hashAlgo]
  obtain ⟨x, y, -, -, -, rfl⟩ := appendTrailer_inv henc
  set tail := trailerBytes x y with htail
  have hheader : slice (headBody head ++ tail) 0 headHeaderSize = marshalHeadHeader head.header := by
    rw [headBody, append_assoc]
    exact slice_left _ _ _ (length_marshalHeadHeader _)
  have hlast : slice (headBody head ++ tail) headHeaderSize (headHeaderSize + leafEntrySize) =
      marshalLeafEntry head.lastSegment := by
    rw [headBody, append_assoc, slice_right _ _ _ _ (by rw [length_marshalHeadHeader]; rfl), append_assoc,
      length_marshalHeadHeader]
    exact slice_left _ _ _ (length_marshalLeafEntry _)
  -- the open leaf and the sections sit between known front and back parts
  have hend : (headBody head ++ tail).length - trailerSize = (headBody head).length := by
    rw [hlen]; simp only [trailerSize]; omega
  have hact := parseActive_flatMap (headBody head).length head.active
    (marshalHeadHeader head.header ++ marshalLeafEntry head.lastSegment)
    (head.sections.flatMap sectionBytes ++ tail) 0
    (by rw [length_append, length_marshalHeadHeader, length_marshalLeafEntry, hbodyLen]; omega)
  have hsec := parseSections_flatMap (headBody head).length head.header hh.indexLimit head.sections
    (marshalHeadHeader head.header ++ (marshalLeafEntry head.lastSegment ++ head.active.flatMap marshalLeafEntry)) tail 0
    (fun s hs => by
      obtain ⟨j, hj⟩ := List.mem_iff_getElem?.1 hs
      exact (hv.sections j s hj).limit)
    (by rw [length_append, length_append, length_marshalHeadHeader, length_marshalLeafEntry,
          length_flatMap_const marshalLeafEntry _ length_marshalLeafEntry, hbodyLen]
        omega)
  have hlayoutA : (marshalHeadHeader head.header ++ marshalLeafEntry head.lastSegment) ++
      (head.active.flatMap marshalLeafEntry ++ (head.sections.flatMap sectionBytes ++ tail)) = headBody head ++ tail := by
    simp [headBody]
  have hlayoutS : (marshalHeadHeader head.header ++ (marshalLeafEntry head.lastSegment ++
      head.active.flatMap marshalLeafEntry)) ++ (head.sections.flatMap sectionBytes ++ tail) = headBody head ++ tail := by
    simp [headBody]
  rw [hlayoutA] at hact
  rw [hlayoutS] at hsec
  simp only [length_append, length_marshalHeadHeader, length_marshalLeafEntry,
    length_flatMap_const marshalLeafEntry _ length_marshalLeafEntry] at hact hsec
  have h1 : ¬(headBody head ++ tail).length < headHeaderSize + leafEntrySize + trailerSize := by
    rw [hlen, hbodyLen]; simp only [headHeaderSize, leafEntrySize, trailerSize]; omega
  have h2 : ¬(head.header.activeCount ≥ head.header.leafLimit ∨ head.active.length > maxLeafEntries) := by
    have := hh.active
    rintro (h | h)
    · rw [ge_iff_le, UInt32.le_iff_toNat_le, hactive] at h; omega
    · simp only [maxLeafEntries] at h; omega
  have hoff : 192 + (128 + head.active.length * 128) = 192 + 128 + head.active.length * 128 := by omega
  rw [hoff] at hsec
  simp only [parseHead, hheader, parse_marshalHeadHeader _ halgo hh.layout ⟨hh.leafLimit_pos, hh.leafLimit⟩
    ⟨hh.indexLimit_two, hh.indexLimit⟩, checks_ok, h1, not_false_iff, true_and, Except.ok.injEq, exists_eq_left', hver,
      hlast, parse_marshalLeafEntry, hactive, hlevels, hend, Prod.exists]
  refine ⟨h2, Nat.not_lt.2 hh.levels, head.active, _, hact, head.sections, _, hsec, ?_, hvalid, rfl⟩
  omega

end ObjLog.Catformat
