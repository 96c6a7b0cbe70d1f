import ObjLog.Segformat.RawBlock
/-!
# Raw blocks have one encoding, and both decoders agree

`EncodeRawBlock` and `DecodeRawBlock` are inverse to each other. A scanner that
is run to its end delivers what `DecodeRawBlock` returns, or stops with its
error; what it delivered until then lies at the front of the block. Neither
slices out of range.
-/

namespace ObjLog.Segformat

open Lib

variable {headers : List Header} {i n : Nat} {r : RawRecord}

/-! ## What was decoded is what was there -/

theorem headersLenFrom_of (h : ∀ x ∈ headers, HeaderOk x) {total : Nat}
    (hmax : total + (headers.flatMap Header.bytes).length ≤ maxRecordHeaderBytes) :
    headersLenFrom i total headers = .ok (total + (headers.flatMap Header.bytes).length) := by
  induction headers generalizing i total with
  | nil => rfl
  | cons x headers ih =>
    obtain ⟨⟨hkey, hkeyLen, hvalueLen⟩, hall⟩ := List.forall_mem_cons.1 h
    have hlen : x.bytes.length = 4 + x.key.length + x.value.length := by
      simp [Header.bytes]
      omega
    rw [List.flatMap_cons, List.length_append, hlen] at hmax ⊢
    simp only [headersLenFrom, checks_ok, Nat.not_lt]
    refine ⟨hkey, hkeyLen, hvalueLen, by omega, ?_⟩
    rw [ih hall (by omega), Nat.add_assoc]

theorem encodedHeadersLen_of (h : ∀ x ∈ headers, HeaderOk x)
    (hcount : headers.length ≤ maxRecordHeaders) (hmax : (headersBytes headers).length ≤ maxRecordHeaderBytes) :
    encodedHeadersLen headers = .ok (headersBytes headers).length := by
  unfold encodedHeadersLen
  split
  · rename_i hnil
    rw [hnil]
    rfl
  · rename_i hne
    have hlen : (headersBytes headers).length = 2 + (headers.flatMap Header.bytes).length := by
      rw [headersBytes, if_neg hne, List.length_append, length_putUint16]
    rw [hlen] at hmax ⊢
    simp only [checks_ok, Nat.not_lt]
    exact ⟨hcount, headersLenFrom_of h hmax⟩

theorem RawRecord.size_of (h : ∀ x ∈ r.headers, HeaderOk x) (hcount : r.headers.length ≤ maxRecordHeaders)
    (hmax : (headersBytes r.headers).length ≤ maxRecordHeaderBytes) (hvalue : r.value.length ≤ maxRecordValueLen) :
    r.size = .ok r.bytes.length := by
  have hlen : r.bytes.length = recordHeaderSize + (headersBytes r.headers).length + r.value.length := by
    simp [RawRecord.bytes, recordHeaderSize]
    omega
  simp only [RawRecord.size, recordSize, checks_ok, Nat.not_lt]
  exact ⟨hvalue, _, encodedHeadersLen_of h hcount hmax, hlen.symm⟩

/-- Headers that were decoded fill the bytes they were decoded from. -/
theorem decodeHeadersFrom_ok {buf : Bytes} {off stop : Nat}
    (h : decodeHeadersFrom buf i off n = .ok (headers, stop)) (hoff : off ≤ buf.length) :
    headers.length = n ∧ (∀ x ∈ headers, HeaderOk x) ∧ off ≤ stop ∧ stop ≤ buf.length ∧
      headers.flatMap Header.bytes = slice buf off stop := by
  induction n generalizing i off headers with
  | zero =>
    cases h
    exact ⟨rfl, nofun, Nat.le_refl _, hoff, (slice_empty _ (Nat.le_refl _)).symm⟩
  | succ n ih =>
    simp only [decodeHeadersFrom, checks_ok, Prod.exists, Nat.not_lt] at h
    obtain ⟨hroom, hkey, hkeyLen, hvalueLen, hbytes, rest, stop', hrest, rfl, rfl⟩ := h
    obtain ⟨hlen, hall, hle, hstop, hflat⟩ := ih hrest (by omega)
    have hk := length_slice_of_le buf (a := off + 4) (n := (uint16 (slice buf off (off + 2))).toNat) rfl (by omega)
    have hv := length_slice_of_le buf (a := off + 4 + (uint16 (slice buf off (off + 2))).toNat)
      (n := (uint16 (slice buf (off + 2) (off + 4))).toNat) rfl (by omega)
    refine ⟨by rw [List.length_cons, hlen], List.forall_mem_cons.2 ⟨⟨?_, ?_, ?_⟩, hall⟩, by omega, hstop, ?_⟩
    · rw [hk]
      exact hkey
    · rw [hk]
      exact hkeyLen
    · rw [hv]
      exact hvalueLen
    · rw [List.flatMap_cons, Header.bytes, hk, hv, hflat, UInt16.ofNat_toNat, UInt16.ofNat_toNat,
        putUint16_slice _ (by omega) (by omega), putUint16_slice _ (by omega) (by omega),
        slice_append _ (by omega) (by omega), slice_append _ (by omega) (by omega),
        slice_append _ (by omega) (by omega), Nat.add_assoc (off + 4), slice_append _ (by omega) hle]

theorem decodeHeaders_ok {buf : Bytes} (h : decodeHeaders buf = .ok headers) :
    (∀ x ∈ headers, HeaderOk x) ∧ headers.length ≤ maxRecordHeaders ∧ headersBytes headers = buf := by
  unfold decodeHeaders at h
  split at h
  · rename_i hnil
    cases h
    exact ⟨List.forall_mem_nil _, by decide, (List.eq_nil_of_length_eq_zero hnil).symm⟩
  · simp only [checks_ok, Prod.exists, not_not, Nat.not_lt] at h
    obtain ⟨hmin, hcount, hmax, headers', stop, hfrom, hstop, rfl⟩ := h
    obtain ⟨hlen, hall, hle, -, hflat⟩ := decodeHeadersFrom_ok hfrom hmin
    have hne : headers' ≠ [] := by
      rintro rfl
      exact hcount hlen.symm
    refine ⟨hall, hlen ▸ hmax, ?_⟩
    rw [headersBytes, if_neg hne, hflat, hlen, UInt16.ofNat_toNat, putUint16_slice _ (by omega) hmin,
      slice_append _ (by omega) hle]
    exact slice_self _ _ hstop.symm

/-- A record that was scanned is accepted by the encoder and fills its bytes. -/
theorem scanRawRecord_ok {raw : Bytes} {off next : Nat} (h : scanRawRecord raw off = .ok (r, next))
    (hroom : off + 16 ≤ raw.length) :
    r.size = .ok r.bytes.length ∧ off ≤ next ∧ next ≤ raw.length ∧ r.bytes = slice raw off next := by
  simp only [scanRawRecord, checks_ok, Nat.not_lt] at h
  obtain ⟨hheadersMax, hvalueMax, hfits, headers, hheaders, rfl, rfl⟩ := h
  simp only [recordHeaderSize] at hfits hheaders ⊢
  obtain ⟨hall, hcount, hbytes⟩ := decodeHeaders_ok hheaders
  have hh := length_slice_of_le raw (a := off + 16) (n := (uint32 (slice raw (off + 8) (off + 12))).toNat) rfl (by omega)
  have hv := length_slice_of_le raw (a := off + 16 + (uint32 (slice raw (off + 8) (off + 12))).toNat)
    (n := (uint32 (slice raw (off + 12) (off + 16))).toNat) rfl (by omega)
  refine ⟨RawRecord.size_of hall hcount ?_ ?_, by omega, by omega, ?_⟩
  · rw [hbytes, hh]
    exact hheadersMax
  · rw [hv]
    exact hvalueMax
  · rw [RawRecord.bytes, hbytes, hh, hv, UInt32.ofNat_toNat, UInt32.ofNat_toNat,
      putInt64_slice _ (by omega) (by omega), putUint32_slice _ (by omega) (by omega),
      putUint32_slice _ (by omega) (by omega), slice_append _ (by omega) (by omega),
      slice_append _ (by omega) (by omega), slice_append _ (by omega) (by omega), slice_append _ (by omega) (by omega)]

/-! ## Encoding -/

theorem appendRawRecord_of (h : r.size = .ok n) (dst : Bytes) : appendRawRecord dst r = .ok (dst ++ r.bytes) := by
  obtain ⟨hall, hcount, hmax, -, -⟩ := RawRecord.size_ok h
  simp only [appendRawRecord, checks_ok]
  exact ⟨n, h, _, encodedHeadersLen_of hall hcount hmax, rfl⟩

theorem foldlM_appendRawRecord {records : List RawRecord} (h : ∀ r ∈ records, r.size = .ok r.bytes.length) (dst : Bytes) :
    records.foldlM appendRawRecord dst = .ok (dst ++ records.flatMap RawRecord.bytes) := by
  induction records generalizing dst with
  | nil => simp [pure, Except.pure]
  | cons r records ih =>
    obtain ⟨hr, hall⟩ := List.forall_mem_cons.1 h
    rw [List.foldlM_cons, appendRawRecord_of hr, List.flatMap_cons, ← List.append_assoc]
    exact ih hall _

/-- What the first loop of `EncodeRawBlock` checks. -/
theorem encodedSizeFrom_ok {total : Nat} {prev : Int64} {records : List RawRecord} :
    encodedSizeFrom i total prev records = .ok n ↔
      n = total + (records.flatMap RawRecord.bytes).length ∧ (∀ r ∈ records, r.size = .ok r.bytes.length) ∧
        (records ≠ [] → n ≤ maxRawBlockSize) ∧ (0 < i → ∀ r ∈ records, prev ≤ r.timestampMS) ∧
          records.Pairwise (·.timestampMS ≤ ·.timestampMS) := by
  induction records generalizing i total prev with
  | nil => simp [encodedSizeFrom, eq_comm]
  | cons r records ih =>
    simp only [encodedSizeFrom, checks_ok, ih, not_and, Int64.not_lt, Nat.not_lt, List.flatMap_cons,
      List.length_append, List.forall_mem_cons, List.pairwise_cons, Nat.succ_pos, forall_const, gt_iff_lt, ne_eq,
      reduceCtorEq, not_false_iff]
    constructor
    · rintro ⟨size, hsize, hprev, hmax, hn, hall, hmaxRest, hafter, hpair⟩
      obtain ⟨-, -, -, -, rfl⟩ := RawRecord.size_ok hsize
      refine ⟨by omega, ⟨hsize, hall⟩, ?_, fun hi => ⟨hprev hi, fun x hx => Int64.le_trans (hprev hi) (hafter x hx)⟩,
        hafter, hpair⟩
      by_cases hnil : records = []
      · rw [hn, hnil]
        simpa using hmax
      · exact hmaxRest hnil
    · rintro ⟨hn, ⟨hsize, hall⟩, hmax, hprev, hafter, hpair⟩
      exact ⟨_, hsize, fun hi => (hprev hi).1, by omega, by omega, hall, fun _ => hmax, hafter, hpair⟩

/-- What `EncodeRawBlock` accepts and returns. -/
theorem encodeRawBlock_ok {records : List RawRecord} {raw : Bytes} :
    encodeRawBlock records = .ok raw ↔ records ≠ [] ∧ raw = records.flatMap RawRecord.bytes ∧
      (∀ r ∈ records, r.size = .ok r.bytes.length) ∧ records.Pairwise (·.timestampMS ≤ ·.timestampMS) ∧
        raw.length ≤ maxRawBlockSize := by
  cases records with
  | nil => simp [encodeRawBlock]
  | cons first rest =>
    simp only [encodeRawBlock, bind_ok, encodedSizeFrom_ok]
    constructor
    · rintro ⟨n, ⟨hn, hall, hmax, -, hpair⟩, hfold⟩
      rw [foldlM_appendRawRecord hall] at hfold
      cases hfold
      exact ⟨by simp, rfl, hall, hpair, by have := hmax (by simp); simp at hn ⊢; omega⟩
    · rintro ⟨hne, rfl, hall, hpair, hmax⟩
      exact ⟨_, ⟨rfl, hall, fun _ => by omega, by simp, hpair⟩, foldlM_appendRawRecord hall []⟩

/-! ## The records at the front of a block -/

/-- The record without its LSN. -/
def Record.raw (r : Record) : RawRecord := ⟨r.timestampMS, r.headers, r.value⟩

/-- The input begins with these records, and each is inside the bounds of the format and of the block. -/
structure Front (raw : Bytes) (block : BlockPreamble) (records : List RawRecord) : Prop where
  bytes : records.flatMap RawRecord.bytes <+: raw
  sized : ∀ r ∈ records, r.size = .ok r.bytes.length
  inRange : ∀ r ∈ records, block.minTimestampMS ≤ r.timestampMS ∧ r.timestampMS ≤ block.maxTimestampMS
  ordered : records.Pairwise (·.timestampMS ≤ ·.timestampMS)
  count : records.length ≤ block.recordCount.toNat

/-- The scanner has delivered `records`. -/
structure Delivered (s : RawBlockScanner) (records : List RawRecord) : Prop extends Front s.raw s.block records where
  offset : s.offset = (records.flatMap RawRecord.bytes).length
  index : s.recordIndex.toNat = records.length
  prev : ∀ r ∈ records.getLast?, s.prevTimestampMS = r.timestampMS

theorem Front.nil {raw : Bytes} {block : BlockPreamble} : Front raw block [] :=
  ⟨List.nil_prefix, nofun, nofun, .nil, Nat.zero_le _⟩

theorem newRawBlockScanner_delivered {raw : Bytes} {block : BlockPreamble} {s : RawBlockScanner}
    (h : newRawBlockScanner raw block = .ok s) : s.raw = raw ∧ s.block = block ∧ Delivered s [] := by
  simp only [newRawBlockScanner, checks_ok] at h
  obtain ⟨-, rfl⟩ := h
  exact ⟨rfl, rfl, ⟨.nil, rfl, rfl, by simp⟩⟩

/-- One more record lies after the ones delivered. -/
theorem Front.snoc {raw : Bytes} {block : BlockPreamble} {records : List RawRecord} {next : Nat}
    (h : Front raw block records) (hsize : r.size = .ok r.bytes.length)
    (hnext : next ≤ raw.length) (hle : (records.flatMap RawRecord.bytes).length ≤ next)
    (hbytes : r.bytes = slice raw (records.flatMap RawRecord.bytes).length next)
    (hrange : block.minTimestampMS ≤ r.timestampMS ∧ r.timestampMS ≤ block.maxTimestampMS)
    (hafter : ∀ x ∈ records, x.timestampMS ≤ r.timestampMS) (hcount : records.length < block.recordCount.toNat) :
    Front raw block (records ++ [r]) ∧ ((records ++ [r]).flatMap RawRecord.bytes).length = next := by
  have hfront : records.flatMap RawRecord.bytes = slice raw 0 (records.flatMap RawRecord.bytes).length := by
    obtain ⟨rest, hraw⟩ := h.bytes
    rw [← hraw]
    exact (slice_left _ _ _ rfl).symm
  have hall : (records ++ [r]).flatMap RawRecord.bytes = slice raw 0 next := by
    rw [List.flatMap_append, List.flatMap_singleton, hbytes]
    nth_rewrite 1 [hfront]
    exact slice_append _ (Nat.zero_le _) hle
  have hlen : (slice raw 0 next).length = next := length_slice_of_le _ (by omega) hnext
  refine ⟨⟨?_, ?_, ?_, ?_, ?_⟩, by rw [hall, hlen]⟩
  · rw [hall]
    exact List.take_prefix ..
  · simpa [or_imp, forall_and] using ⟨h.sized, hsize⟩
  · intro x hx
    rcases mem_concat.1 hx with hx | rfl
    · exact h.inRange x hx
    · exact hrange
  · refine List.pairwise_append.2 ⟨h.ordered, List.pairwise_singleton .., fun x hx y hy => ?_⟩
    obtain rfl := List.mem_singleton.1 hy
    exact hafter x hx
  · rw [List.length_append]
    exact hcount

/-! ## Running a scanner to its end -/

/-- The records `Next` delivers until it returns none or an error, and that error. Nothing when `turns` are too few. -/
def RawBlockScanner.drain : Nat → RawBlockScanner → Option (List Record × Except Err Unit)
  | 0, _ => none
  | turns + 1, s =>
    match s.next with
    | .error e => some ([], .error e)
    | .ok (none, _) => some ([], .ok ())
    | .ok (some r, s) => (s.drain turns).map fun (records, result) => (r :: records, result)

/-- A new scanner, run to its end. -/
def scanRawBlock (raw : Bytes) (block : BlockPreamble) : Option (List Record × Except Err Unit) :=
  match newRawBlockScanner raw block with
  | .error e => some ([], .error e)
  | .ok s => s.drain (block.recordCount.toNat + 1)

variable {s s' : RawBlockScanner} {block : BlockPreamble} {records : List RawRecord}

/-- No record delivered is later than the last one. -/
theorem Delivered.le_prev (h : Delivered s records) {x : RawRecord} (hx : x ∈ records) :
    x.timestampMS ≤ s.prevTimestampMS := by
  have hne : records ≠ [] := List.ne_nil_of_mem hx
  rw [h.prev _ (List.getLast?_eq_getLast_of_ne_nil hne)]
  have hsplit := List.dropLast_concat_getLast hne
  rw [← hsplit] at hx
  have hordered := h.ordered
  rw [← hsplit] at hordered
  rcases mem_concat.1 hx with hx | rfl
  · exact (List.pairwise_append.1 hordered).2.2 x hx _ (by simp)
  · exact Int64.le_refl _

theorem Delivered.step (h : Delivered s records) {x : Record} (hnext : s.next = .ok (some x, s')) :
    ∃ r, x = s.block.record records.length r ∧ s'.raw = s.raw ∧ s'.block = s.block ∧ Delivered s' (records ++ [r]) := by
  unfold RawBlockScanner.next at hnext
  split at hnext
  · simp at hnext
  rename_i hmore
  simp only [checks_ok, Prod.exists, Option.some.injEq, not_or, not_and, Int64.not_lt, Nat.not_lt] at hnext
  obtain ⟨hroom, r, next, hscan, ⟨hmin, hmax⟩, hprev, -, rfl, rfl⟩ := hnext
  simp only [recordHeaderSize] at hroom
  obtain ⟨hsize, hle, hlen, hbytes⟩ := scanRawRecord_ok hscan (by omega)
  rw [ge_iff_le, UInt32.le_iff_toNat_le, h.index] at hmore
  rw [h.offset] at hle hbytes
  have hafter : ∀ x ∈ records, x.timestampMS ≤ r.timestampMS := by
    intro x hx
    refine Int64.le_trans (h.le_prev hx) (hprev ?_)
    rw [gt_iff_lt, UInt32.lt_iff_toNat_lt, h.index]
    exact List.length_pos_of_mem hx
  obtain ⟨hfront, hend⟩ := h.toFront.snoc hsize hlen hle hbytes ⟨hmin, hmax⟩ hafter (Nat.not_le.1 hmore)
  have hbound := s.block.recordCount.toNat_lt
  refine ⟨r, ?_, rfl, rfl, ⟨hfront, hend.symm, ?_, by simp⟩⟩
  · have hlsn : s.recordIndex.toUInt64 = .ofNat records.length := by
      rw [← UInt64.toNat_inj, UInt32.toNat_toUInt64, h.index, UInt64.toNat_ofNat']
      omega
    simp [BlockPreamble.record, hlsn]
  · rw [UInt32.toNat_add, h.index, List.length_append, show (1 : UInt32).toNat = 1 from rfl]
    exact Nat.mod_eq_of_lt (by omega)

/-- What a run delivers lies at the front of the block. -/
theorem Delivered.drain (h : Delivered s records) {turns : Nat} {out : List Record} {result : Except Err Unit}
    (hd : s.drain turns = some (out, result)) :
    ∃ more, out = s.block.numbered records.length more ∧ Front s.raw s.block (records ++ more) := by
  induction turns generalizing s records out with
  | zero => cases hd
  | succ turns ih =>
    have hnone : ∃ more, ([] : List Record) = s.block.numbered records.length more ∧ Front s.raw s.block (records ++ more) :=
      ⟨[], rfl, by simpa using h.toFront⟩
    unfold RawBlockScanner.drain at hd
    cases hnext : s.next with
    | error e =>
      rw [hnext] at hd
      cases hd
      exact hnone
    | ok step =>
      obtain ⟨found, s'⟩ := step
      rw [hnext] at hd
      cases found with
      | none =>
        cases hd
        exact hnone
      | some x =>
        obtain ⟨⟨rest, result'⟩, hrest, heq⟩ := Option.map_eq_some_iff.1 hd
        cases heq
        obtain ⟨r, rfl, hraw, hblock, hdelivered⟩ := h.step hnext
        obtain ⟨more, rfl, hfront⟩ := ih hdelivered hrest
        rw [hraw, hblock] at hfront
        refine ⟨r :: more, ?_, by simpa using hfront⟩
        rw [hblock, List.length_append]
        rfl

/-! ## Both decoders agree -/

/-- The rest of `DecodeRawBlock` after its checks of the block: the loop and the check that nothing is left. -/
def decodeRest (raw : Bytes) (block : BlockPreamble) (i : UInt32) (offset : Nat) (prev : Int64) (n : Nat) :
    Except Err (List Record) := do
  let (records, stop) ← decodeRecordsFrom raw block i offset prev n
  failIf (stop ≠ raw.length) (invalid s!"raw block has {raw.length - stop} trailing bytes")
  return records

theorem decodeRest_succ (raw : Bytes) (block : BlockPreamble) (i : UInt32) (offset : Nat) (prev : Int64) (n : Nat) :
    decodeRest raw block i offset prev (n + 1) = do
      failIf (raw.length - offset < recordHeaderSize) (invalid "truncated raw record header")
      let (r, next) ← scanRawRecord raw offset
      failIf (r.timestampMS < block.minTimestampMS ∨ r.timestampMS > block.maxTimestampMS)
        (invalid s!"timestamp={r.timestampMS} outside block range")
      failIf (i > 0 ∧ r.timestampMS < prev) (invalid s!"timestamp regression at record {i}")
      let records ← decodeRest raw block (i + 1) next r.timestampMS n
      return ⟨block.baseLSN + i.toUInt64, r.timestampMS, r.headers, r.value⟩ :: records := by
  simp only [decodeRest, decodeRecordsFrom, bind_assoc, pure_bind]

/-- The scanner goes through the same records and stops with the same error. -/
theorem drain_decodeRest (hcount : s.recordIndex.toNat + n = s.block.recordCount.toNat)
    (hend : n = 0 → s.offset = s.raw.length) : ∃ out, s.drain (n + 1) =
        some (out, (decodeRest s.raw s.block s.recordIndex s.offset s.prevTimestampMS n).map fun _ => ()) ∧
      ∀ records, decodeRest s.raw s.block s.recordIndex s.offset s.prevTimestampMS n = .ok records → out = records := by
  induction n generalizing s with
  | zero =>
    have hnext : s.next = .ok (none, s) := by
      rw [RawBlockScanner.next, if_pos (by rw [ge_iff_le, UInt32.le_iff_toNat_le]; omega)]
      simp [hend rfl]
    have hrest : decodeRest s.raw s.block s.recordIndex s.offset s.prevTimestampMS 0 = .ok [] := by
      simp [decodeRest, decodeRecordsFrom, hend rfl]
    refine ⟨[], ?_, fun records hrecords => ?_⟩
    · rw [hrest, RawBlockScanner.drain, hnext]
      rfl
    · rw [hrest] at hrecords
      cases hrecords
      rfl
  | succ n ih =>
    have hbound := s.block.recordCount.toNat_lt
    have hmore : ¬s.recordIndex ≥ s.block.recordCount := by
      rw [ge_iff_le, UInt32.le_iff_toNat_le]
      omega
    have hsucc : (s.recordIndex + 1).toNat = s.recordIndex.toNat + 1 := by
      rw [UInt32.toNat_add, show (1 : UInt32).toNat = 1 from rfl, Nat.mod_eq_of_lt (by omega)]
    unfold RawBlockScanner.drain
    rw [decodeRest_succ, RawBlockScanner.next, if_neg hmore]
    -- both make the same checks, up to the record itself
    generalize failIf (s.raw.length - s.offset < recordHeaderSize) (invalid "truncated raw record header") = roomy
    cases roomy with
    | error e => exact ⟨[], rfl, fun _ h => by cases h⟩
    | ok _ =>
    cases scanRawRecord s.raw s.offset with
    | error e => exact ⟨[], rfl, fun _ h => by cases h⟩
    | ok found =>
    obtain ⟨r, next⟩ := found
    cases hrange : failIf (r.timestampMS < s.block.minTimestampMS ∨ r.timestampMS > s.block.maxTimestampMS)
        (invalid s!"timestamp={r.timestampMS} outside block range") with
    | error e => exact ⟨[], by simp [bind, Except.bind, hrange, Except.map], by simp [bind, Except.bind, hrange]⟩
    | ok _ =>
    cases hregress : failIf (s.recordIndex > 0 ∧ r.timestampMS < s.prevTimestampMS)
        (invalid s!"timestamp regression at record {s.recordIndex}") with
    | error e =>
      exact ⟨[], by simp [bind, Except.bind, hrange, hregress, Except.map], by simp [bind, Except.bind, hrange, hregress]⟩
    | ok _ =>
    by_cases hlast : s.recordIndex + 1 = s.block.recordCount ∧ next ≠ s.raw.length
    · -- bytes are left: the scanner says so at the last record, the loop after it
      obtain rfl : n = 0 := by
        have := congrArg UInt32.toNat hlast.1
        omega
      have hstop : failIf (s.recordIndex + 1 = s.block.recordCount ∧ next ≠ s.raw.length)
          (invalid s!"raw block has {s.raw.length - next} trailing bytes") = .error _ := if_pos hlast
      have hrest : decodeRest s.raw s.block (s.recordIndex + 1) next r.timestampMS 0 =
          .error (invalid s!"raw block has {s.raw.length - next} trailing bytes") := by
        simp only [decodeRest, decodeRecordsFrom, bind, Except.bind, failIf, if_pos hlast.2]
      simp only [bind, Except.bind, hrange, hregress, hstop, hrest]
      exact ⟨[], rfl, fun _ h => by cases h⟩
    · obtain ⟨out, hdrain, hsame⟩ := ih (s := ⟨s.raw, s.block, next, s.recordIndex + 1, r.timestampMS⟩)
        (by dsimp only; omega) (by
          rintro rfl
          by_contra hne
          exact hlast ⟨UInt32.toNat_inj.1 (by omega), hne⟩)
      dsimp only at hdrain hsame
      have hpass : failIf (s.recordIndex + 1 = s.block.recordCount ∧ next ≠ s.raw.length)
          (invalid s!"raw block has {s.raw.length - next} trailing bytes") = .ok () := if_neg hlast
      simp only [bind, Except.bind, hrange, hregress, hpass, hdrain, pure, Except.pure, Option.map_some]
      generalize decodeRest s.raw s.block (s.recordIndex + 1) next r.timestampMS n = rest at hsame
      cases rest with
      | error e => exact ⟨_, rfl, fun _ h => by cases h⟩
      | ok records =>
        obtain rfl := hsame records rfl
        exact ⟨_, rfl, fun _ heq => Except.ok.inj heq⟩

theorem validateRawBlockEnvelope_ok {raw : Bytes} (h : validateRawBlockEnvelope raw block = .ok ()) :
    block.validate = .ok () ∧ raw.length = block.rawSize.toNat ∧ 0 < block.recordCount.toNat ∧
      raw.length ≤ maxRawBlockSize := by
  simp only [validateRawBlockEnvelope, checks_ok, not_not] at h
  obtain ⟨hvalid, last, hlast, hlen, -⟩ := h
  refine ⟨hvalid, hlen, ?_, ?_⟩
  · simp only [lastLSN, checks_ok] at hlast
    exact Nat.pos_of_ne_zero fun hzero => hlast.1 (UInt32.toNat_inj.1 hzero)
  · simp only [BlockPreamble.validate, validateBlock, checks_ok, UInt32.not_lt] at hvalid
    obtain ⟨-, -, -, -, hmax, -⟩ := hvalid
    rw [hlen]
    exact UInt32.le_iff_toNat_le.1 hmax

/-- A scanner that is run to its end delivers what `DecodeRawBlock` returns, or the front of it and the same error. -/
theorem scan_decode (raw : Bytes) (block : BlockPreamble) :
    ∃ out, scanRawBlock raw block = some (out, (decodeRawBlock raw block).map fun _ => ()) ∧
      (∀ records, decodeRawBlock raw block = .ok records → out = records) ∧
        ∃ records, out = block.numbered 0 records ∧ Front raw block records := by
  have hdecode : decodeRawBlock raw block =
      validateRawBlockEnvelope raw block >>= fun _ => decodeRest raw block 0 0 0 block.recordCount.toNat := rfl
  cases henvelope : validateRawBlockEnvelope raw block with
  | error e =>
    have hnew : newRawBlockScanner raw block = .error e := by
      rw [newRawBlockScanner, henvelope]
      rfl
    rw [hdecode, henvelope]
    refine ⟨[], by rw [scanRawBlock, hnew]; rfl, fun _ h => (by cases h), [], rfl, .nil⟩
  | ok _ =>
    have hnew : newRawBlockScanner raw block = .ok ⟨raw, block, 0, 0, 0⟩ := by
      rw [newRawBlockScanner, henvelope]
      rfl
    obtain ⟨-, -, hpos, -⟩ := validateRawBlockEnvelope_ok henvelope
    obtain ⟨out, hdrain, hsame⟩ := drain_decodeRest (s := ⟨raw, block, 0, 0, 0⟩) (Nat.zero_add _) (by dsimp only; omega)
    have hscan : scanRawBlock raw block = some (out, (decodeRawBlock raw block).map fun _ => ()) := by
      rw [scanRawBlock, hnew, hdecode, henvelope]
      exact hdrain
    obtain ⟨-, -, hdelivered⟩ := newRawBlockScanner_delivered hnew
    obtain ⟨records, hout, hfront⟩ := hdelivered.drain hdrain
    refine ⟨out, hscan, ?_, records, hout, hfront⟩
    rw [hdecode, henvelope]
    exact hsame

/-! ## Encoding and decoding are inverse -/

/-- The rest of the block is the records that were decoded. -/
theorem decodeRest_ok {raw : Bytes} {i : UInt32} {offset : Nat} {prev : Int64} {records : List Record}
    (h : decodeRest raw block i offset prev n = .ok records) (hoffset : offset ≤ raw.length) :
    records.length = n ∧ (records.map Record.raw).flatMap RawRecord.bytes = slice raw offset raw.length := by
  induction n generalizing i offset prev records with
  | zero =>
    simp only [decodeRest, decodeRecordsFrom, checks_ok, not_not, Except.ok.injEq] at h
    obtain ⟨_, rfl, rfl, rfl⟩ := h
    exact ⟨rfl, (slice_empty _ (Nat.le_refl _)).symm⟩
  | succ n ih =>
    rw [decodeRest_succ] at h
    simp only [checks_ok, Prod.exists, Nat.not_lt] at h
    obtain ⟨hroom, r, next, hscan, -, -, rest, hrest, rfl⟩ := h
    simp only [recordHeaderSize] at hroom
    obtain ⟨-, hle, hlen, hbytes⟩ := scanRawRecord_ok hscan (by omega)
    obtain ⟨hcount, hflat⟩ := ih hrest hlen
    refine ⟨by rw [List.length_cons, hcount], ?_⟩
    rw [List.map_cons, List.flatMap_cons, hflat]
    change r.bytes ++ _ = _
    rw [hbytes]
    exact slice_append _ hle hlen

theorem map_raw_numbered (records : List RawRecord) (i : Nat) : (block.numbered i records).map Record.raw = records := by
  induction records generalizing i with
  | nil => rfl
  | cons r records ih => rw [BlockPreamble.numbered, List.map_cons, ih]; rfl

/-- `EncodeRawBlock` of what was decoded is what it was decoded from. -/
theorem encode_decodeRawBlock {raw : Bytes} {records : List Record} (h : decodeRawBlock raw block = .ok records) :
    records = block.numbered 0 (records.map Record.raw) ∧ encodeRawBlock (records.map Record.raw) = .ok raw := by
  obtain ⟨out, -, hsame, recs, hout, hfront⟩ := scan_decode raw block
  obtain rfl := hsame records h
  have hdecode : decodeRawBlock raw block =
      validateRawBlockEnvelope raw block >>= fun _ => decodeRest raw block 0 0 0 block.recordCount.toNat := rfl
  rw [hdecode] at h
  simp only [checks_ok] at h
  obtain ⟨henvelope, hrest⟩ := h
  obtain ⟨-, -, hpos, hmax⟩ := validateRawBlockEnvelope_ok henvelope
  obtain ⟨hcount, hflat⟩ := decodeRest_ok hrest (Nat.zero_le _)
  rw [slice_self _ _ rfl] at hflat
  have hraw : out.map Record.raw = recs := by rw [hout, map_raw_numbered]
  rw [hraw] at hflat ⊢
  refine ⟨hout, encodeRawBlock_ok.2 ⟨?_, hflat.symm, hfront.sized, hfront.ordered, hmax⟩⟩
  rintro rfl
  rw [hout] at hcount
  exact absurd hcount (by simp [BlockPreamble.numbered]; omega)

/-- The preamble of a block with these records: a valid one (so its LSNs are in range) that has their number, their size
and bounds on their timestamps. -/
structure Describes (block : BlockPreamble) (records : List RawRecord) (raw : Bytes) : Prop where
  valid : block.validate = .ok ()
  count : block.recordCount.toNat = records.length
  rawSize : block.rawSize.toNat = raw.length
  bounds : ∀ r ∈ records, block.minTimestampMS ≤ r.timestampMS ∧ r.timestampMS ≤ block.maxTimestampMS

theorem Scans.drain {done rest : List RawRecord} (h : Scans s block done rest) :
    s.drain (rest.length + 1) = some (block.numbered done.length rest, .ok ()) := by
  induction rest generalizing s done with
  | nil =>
    rw [List.length_nil, RawBlockScanner.drain, h.next_end]
    rfl
  | cons r rest ih =>
    obtain ⟨s', hnext, hs'⟩ := h.next_record
    have hrest := ih hs'
    rw [List.length_append] at hrest
    rw [List.length_cons, RawBlockScanner.drain, hnext]
    dsimp only
    rw [hrest]
    rfl

/-- `DecodeRawBlock` of what was encoded is the records, numbered from the base LSN. -/
theorem decode_encodeRawBlock {raw : Bytes} (h : encodeRawBlock records = .ok raw) (hblock : Describes block records raw) :
    decodeRawBlock raw block = .ok (block.numbered 0 records) := by
  obtain ⟨-, rfl, hsized, hordered, -⟩ := encodeRawBlock_ok.1 h
  have hpacked : Packed block records := ⟨fun r hr => ⟨_, hsized r hr⟩, hblock.count, hordered, hblock.bounds⟩
  have hlast : ∃ last, lastLSN block.baseLSN block.recordCount = .ok last := by
    have hvalid := hblock.valid
    simp only [BlockPreamble.validate, validateBlock, checks_ok] at hvalid
    obtain ⟨-, -, -, -, -, -, -, last, hlast, -⟩ := hvalid
    exact ⟨last, hlast⟩
  obtain ⟨last, hlast⟩ := hlast
  obtain ⟨s, hnew, hscans⟩ := newRawBlockScanner_ok hpacked hblock.valid hblock.rawSize.symm hlast
  obtain ⟨out, hscan, hsame, -⟩ := scan_decode (records.flatMap RawRecord.bytes) block
  rw [scanRawBlock, hnew] at hscan
  dsimp only at hscan
  rw [hblock.count, hscans.drain] at hscan
  cases hdecode : decodeRawBlock (records.flatMap RawRecord.bytes) block with
  | error e =>
    rw [hdecode] at hscan
    cases hscan
  | ok decoded =>
    rw [hdecode] at hscan
    cases hscan
    exact congrArg Except.ok (hsame decoded hdecode).symm

end ObjLog.Segformat
