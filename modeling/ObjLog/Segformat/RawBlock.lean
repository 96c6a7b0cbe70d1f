import ObjLog.Segformat.Layout
/-!
# Raw blocks, `segformat/rawblock.go`

A raw block is its records one after the other, each with its timestamp, the
lengths of its headers and value, and the two. A scanner reads one record at a
time; `Scans` says where it stands in a block that holds given records.
-/

namespace ObjLog.Segformat

open Lib
open List (append_assoc length_append)
open Catformat (maxRecordLSN)

variable {n : Nat} {headers : List Header}

structure RawRecord where
  timestampMS : Int64
  headers : List Header
  value : Bytes
deriving DecidableEq

structure Record where
  lsn : UInt64
  timestampMS : Int64
  headers : List Header
  value : Bytes
deriving DecidableEq

/-! ## Encoding -/

def Header.bytes (h : Header) : Bytes :=
  putUint16 (.ofNat h.key.length) ++ (putUint16 (.ofNat h.value.length) ++ (h.key ++ h.value))

/-- `appendHeaders`. -/
def headersBytes (headers : List Header) : Bytes :=
  if headers = [] then [] else putUint16 (.ofNat headers.length) ++ headers.flatMap Header.bytes

/-- The record's bytes in a block. -/
def RawRecord.bytes (r : RawRecord) : Bytes :=
  putInt64 r.timestampMS ++ (putUint32 (.ofNat (headersBytes r.headers).length) ++
    (putUint32 (.ofNat r.value.length) ++ (headersBytes r.headers ++ r.value)))

def RawRecord.size (r : RawRecord) : Except Err Nat := recordSize r.headers r.value

def appendRawRecord (dst : Bytes) (r : RawRecord) : Except Err Bytes := do
  let _ ← r.size
  let headersLen ← encodedHeadersLen r.headers
  return dst ++ (putInt64 r.timestampMS ++ (putUint32 (.ofNat headersLen) ++
    (putUint32 (.ofNat r.value.length) ++ (headersBytes r.headers ++ r.value))))

/-- The first loop of `EncodeRawBlock` from record `i` on: the size of the block. -/
def encodedSizeFrom (i total : Nat) (prevTS : Int64) : List RawRecord → Except Err Nat
  | [] => .ok total
  | r :: records => do
    let size ← r.size
    failIf (i > 0 ∧ r.timestampMS < prevTS) (invalid s!"timestamp regression at record {i}")
    let total := total + size
    failIf (total > maxRawBlockSize) (.of .blockTooLarge s!"raw block size={total} max={maxRawBlockSize}")
    encodedSizeFrom (i + 1) total r.timestampMS records

def encodeRawBlock (records : List RawRecord) : Except Err Bytes :=
  match records with
  | [] => .error (invalid "raw block must contain at least one record")
  | first :: _ => do
    let _ ← encodedSizeFrom 0 0 first.timestampMS records
    records.foldlM appendRawRecord []

/-! ## Decoding -/

/-- The loop of `decodeHeaders` from header `i` on: `n` more headers, and where they end. -/
def decodeHeadersFrom (buf : Bytes) (i off : Nat) : Nat → Except Err (List Header × Nat)
  | 0 => .ok ([], off)
  | n + 1 => do
    failIf (buf.length - off < 4) (invalid "truncated record header entry")
    let keyLen := (uint16 (slice buf off (off + 2))).toNat
    let valueLen := (uint16 (slice buf (off + 2) (off + 4))).toNat
    let off := off + 4
    failIf (keyLen = 0) (invalid s!"header {i} key is empty")
    failIf (keyLen > maxRecordHeaderKeyLen)
      (.of .recordTooLarge s!"header {i} key_len={keyLen} max={maxRecordHeaderKeyLen}")
    failIf (valueLen > maxRecordHeaderValueLen)
      (.of .recordTooLarge s!"header {i} value_len={valueLen} max={maxRecordHeaderValueLen}")
    failIf (buf.length - off < keyLen + valueLen) (invalid "truncated record header bytes")
    let header : Header := ⟨slice buf off (off + keyLen), slice buf (off + keyLen) (off + keyLen + valueLen)⟩
    let (headers, stop) ← decodeHeadersFrom buf (i + 1) (off + (keyLen + valueLen)) n
    return (header :: headers, stop)

def decodeHeaders (buf : Bytes) : Except Err (List Header) :=
  if buf.length = 0 then .ok []
  else do
    failIf (buf.length < 2) (invalid "truncated record headers")
    let count := (uint16 (slice buf 0 2)).toNat
    failIf (count = 0) (invalid "zero header count in non-empty headers")
    failIf (count > maxRecordHeaders) (.of .recordTooLarge s!"header_count={count} max={maxRecordHeaders}")
    let (headers, off) ← decodeHeadersFrom buf 0 2 count
    failIf (off ≠ buf.length) (invalid s!"record headers have {buf.length - off} trailing bytes")
    return headers

/-- The record at `off`, and where it ends. -/
def scanRawRecord (raw : Bytes) (off : Nat) : Except Err (RawRecord × Nat) := do
  let ts := int64 (slice raw off (off + 8))
  let headersLen := (uint32 (slice raw (off + 8) (off + 12))).toNat
  let valueLen := (uint32 (slice raw (off + 12) (off + 16))).toNat
  failIf (headersLen > maxRecordHeaderBytes) (.of .recordTooLarge s!"headers_len={headersLen} max={maxRecordHeaderBytes}")
  failIf (valueLen > maxRecordValueLen) (.of .recordTooLarge s!"value_len={valueLen} max={maxRecordValueLen}")
  let headersOff := off + recordHeaderSize
  failIf (raw.length - headersOff < headersLen + valueLen) (invalid "truncated raw record")
  let valueOff := headersOff + headersLen
  let next := valueOff + valueLen
  let headers ← decodeHeaders (slice raw headersOff valueOff)
  return (⟨ts, headers, slice raw valueOff next⟩, next)

/-! ## Scanning -/

structure RawBlockScanner where
  raw : Bytes
  block : BlockPreamble
  offset : Nat
  recordIndex : UInt32
  prevTimestampMS : Int64
deriving DecidableEq

def validateRawBlockEnvelope (raw : Bytes) (block : BlockPreamble) : Except Err Unit := do
  block.validate
  let _ ← lastLSN block.baseLSN block.recordCount
  failIf (raw.length ≠ block.rawSize.toNat) (invalid s!"raw_size={raw.length} want={block.rawSize}")
  failIf (block.recordCount > u32 (raw.length / recordHeaderSize))
    (invalid s!"record_count={block.recordCount} cannot fit in raw_size={raw.length}")

/-- The loop of `DecodeRawBlock` from record `i` on: `n` more records, and where they end. -/
def decodeRecordsFrom (raw : Bytes) (block : BlockPreamble) (i : UInt32) (offset : Nat) (prevTimestampMS : Int64) :
    Nat → Except Err (List Record × Nat)
  | 0 => .ok ([], offset)
  | n + 1 => do
    failIf (raw.length - offset < recordHeaderSize) (invalid "truncated raw record header")
    let (r, next) ← scanRawRecord raw offset
    failIf (r.timestampMS < block.minTimestampMS ∨ r.timestampMS > block.maxTimestampMS)
      (invalid s!"timestamp={r.timestampMS} outside block range")
    failIf (i > 0 ∧ r.timestampMS < prevTimestampMS) (invalid s!"timestamp regression at record {i}")
    let (records, stop) ← decodeRecordsFrom raw block (i + 1) next r.timestampMS n
    return (⟨block.baseLSN + i.toUInt64, r.timestampMS, r.headers, r.value⟩ :: records, stop)

def decodeRawBlock (raw : Bytes) (block : BlockPreamble) : Except Err (List Record) := do
  validateRawBlockEnvelope raw block
  let (records, offset) ← decodeRecordsFrom raw block 0 0 0 block.recordCount.toNat
  failIf (offset ≠ raw.length) (invalid s!"raw block has {raw.length - offset} trailing bytes")
  return records

def newRawBlockScanner (raw : Bytes) (block : BlockPreamble) : Except Err RawBlockScanner := do
  validateRawBlockEnvelope raw block
  return ⟨raw, block, 0, 0, 0⟩

/-- `Next`: no record where the block ends. -/
def RawBlockScanner.next (s : RawBlockScanner) : Except Err (Option Record × RawBlockScanner) :=
  if s.recordIndex ≥ s.block.recordCount then do
    failIf (s.offset ≠ s.raw.length) (invalid s!"raw block has {s.raw.length - s.offset} trailing bytes")
    return (none, s)
  else do
    failIf (s.raw.length - s.offset < recordHeaderSize) (invalid "truncated raw record header")
    let (r, next) ← scanRawRecord s.raw s.offset
    failIf (r.timestampMS < s.block.minTimestampMS ∨ r.timestampMS > s.block.maxTimestampMS)
      (invalid s!"timestamp={r.timestampMS} outside block range")
    failIf (s.recordIndex > 0 ∧ r.timestampMS < s.prevTimestampMS)
      (invalid s!"timestamp regression at record {s.recordIndex}")
    failIf (s.recordIndex + 1 = s.block.recordCount ∧ next ≠ s.raw.length)
      (invalid s!"raw block has {s.raw.length - next} trailing bytes")
    return (some ⟨s.block.baseLSN + s.recordIndex.toUInt64, r.timestampMS, r.headers, r.value⟩,
      { s with offset := next, recordIndex := s.recordIndex + 1, prevTimestampMS := r.timestampMS })

/-! ## Records are read back -/

/-- The header fits the limits of the format. -/
def HeaderOk (h : Header) : Prop :=
  h.key.length ≠ 0 ∧ h.key.length ≤ maxRecordHeaderKeyLen ∧ h.value.length ≤ maxRecordHeaderValueLen

theorem headersLenFrom_ok {i total : Nat} (h : headersLenFrom i total headers = .ok n) :
    (∀ x ∈ headers, HeaderOk x) ∧ n = total + (headers.flatMap Header.bytes).length ∧
      (total ≤ maxRecordHeaderBytes → n ≤ maxRecordHeaderBytes) := by
  induction headers generalizing i total with
  | nil =>
    cases h
    exact ⟨nofun, rfl, id⟩
  | cons x headers ih =>
    simp only [headersLenFrom, checks_ok, Nat.not_lt] at h
    obtain ⟨hkey, hkeyLen, hvalueLen, hbytes, hrest⟩ := h
    obtain ⟨hall, hn, hmax⟩ := ih hrest
    refine ⟨?_, ?_, fun _ => hmax hbytes⟩
    · rw [List.forall_mem_cons]
      exact ⟨⟨hkey, hkeyLen, hvalueLen⟩, hall⟩
    · rw [hn, List.flatMap_cons, length_append]
      simp [Header.bytes]
      omega

theorem encodedHeadersLen_ok (h : encodedHeadersLen headers = .ok n) :
    (∀ x ∈ headers, HeaderOk x) ∧ headers.length ≤ maxRecordHeaders ∧ n = (headersBytes headers).length ∧
      n ≤ maxRecordHeaderBytes := by
  unfold encodedHeadersLen at h
  split at h
  · rename_i hnil
    cases h
    subst hnil
    exact ⟨List.forall_mem_nil _, by decide, rfl, by decide⟩
  · rename_i hne
    simp only [checks_ok, Nat.not_lt] at h
    obtain ⟨hcount, hlen⟩ := h
    obtain ⟨hall, hn, hmax⟩ := headersLenFrom_ok hlen
    refine ⟨hall, hcount, ?_, hmax (by decide)⟩
    rw [hn, headersBytes, if_neg hne, length_append, length_putUint16]

theorem toNat_ofNat16 (h : n ≤ 65535) : (UInt16.ofNat n).toNat = n :=
  UInt16.toNat_ofNat_of_lt (by simp only [UInt16.size]; omega)

theorem toNat_ofNat32 (h : n ≤ 4294967295) : (UInt32.ofNat n).toNat = n :=
  UInt32.toNat_ofNat_of_lt (by simp only [UInt32.size]; omega)

theorem decodeHeadersFrom_bytes (h : ∀ x ∈ headers, HeaderOk x) : ∀ (pre post : Bytes) (i : Nat),
      decodeHeadersFrom (pre ++ (headers.flatMap Header.bytes ++ post)) i pre.length headers.length =
        .ok (headers, pre.length + (headers.flatMap Header.bytes).length) := by
  induction headers with
  | nil =>
    intro pre post i
    simp [decodeHeadersFrom]
  | cons x headers ih =>
    intro pre post i
    obtain ⟨⟨hkey, hkeyLen, hvalueLen⟩, hall⟩ := List.forall_mem_cons.1 h
    simp only [maxRecordHeaderKeyLen, maxRecordHeaderValueLen] at hkeyLen hvalueLen
    have hkeyNat := toNat_ofNat16 (n := x.key.length) (by omega)
    have hvalueNat := toNat_ofNat16 (n := x.value.length) (by omega)
    -- the bytes, cut at the header's fields
    have hbytes : pre ++ ((x :: headers).flatMap Header.bytes ++ post) = pre ++ (putUint16 (.ofNat x.key.length) ++
        (putUint16 (.ofNat x.value.length) ++ (x.key ++ (x.value ++ (headers.flatMap Header.bytes ++ post))))) := by
      simp [Header.bytes]
    have hlen : (pre ++ ((x :: headers).flatMap Header.bytes ++ post)).length =
        pre.length + (4 + x.key.length + x.value.length) + ((headers.flatMap Header.bytes).length + post.length) := by
      rw [hbytes]
      simp
      omega
    have hk : slice (pre ++ ((x :: headers).flatMap Header.bytes ++ post)) pre.length (pre.length + 2) =
        putUint16 (.ofNat x.key.length) := by
      rw [hbytes]
      exact slice_at _ _ _ _ _ rfl (by simp)
    have hv : slice (pre ++ ((x :: headers).flatMap Header.bytes ++ post)) (pre.length + 2) (pre.length + 4) =
        putUint16 (.ofNat x.value.length) := by
      rw [hbytes, ← append_assoc]
      exact slice_at _ _ _ _ _ (by simp) (by simp)
    have hkeyBytes : slice (pre ++ ((x :: headers).flatMap Header.bytes ++ post)) (pre.length + 4)
        (pre.length + 4 + x.key.length) = x.key := by
      rw [hbytes, ← append_assoc, ← append_assoc]
      exact slice_at _ _ _ _ _ (by simp) rfl
    have hvalueBytes : slice (pre ++ ((x :: headers).flatMap Header.bytes ++ post)) (pre.length + 4 + x.key.length)
        (pre.length + 4 + x.key.length + x.value.length) = x.value := by
      rw [hbytes, ← append_assoc, ← append_assoc, ← append_assoc]
      exact slice_at _ _ _ _ _ (by simp; omega) rfl
    have hrest := ih hall (pre ++ x.bytes) post (i + 1)
    have hcut : pre ++ x.bytes ++ (headers.flatMap Header.bytes ++ post) =
        pre ++ ((x :: headers).flatMap Header.bytes ++ post) := by simp
    have hoff : (pre ++ x.bytes).length = pre.length + 4 + (x.key.length + x.value.length) := by
      simp [Header.bytes]
      omega
    rw [hcut, hoff] at hrest
    rw [List.length_cons, decodeHeadersFrom]
    simp only [checks_ok, hk, hv, uint16_put, hkeyNat, hvalueNat, hkeyBytes, hvalueBytes, hlen]
    refine ⟨by omega, hkey, by simp [maxRecordHeaderKeyLen]; omega, by simp [maxRecordHeaderValueLen]; omega,
      by omega, _, hrest, ?_⟩
    simp [Header.bytes]
    omega

theorem decodeHeaders_bytes (h : ∀ x ∈ headers, HeaderOk x)
    (hcount : headers.length ≤ maxRecordHeaders) : decodeHeaders (headersBytes headers) = .ok headers := by
  unfold headersBytes
  split
  · rename_i hnil
    rw [hnil]
    rfl
  · rename_i hne
    have hpos := List.length_pos_iff.2 hne
    have hnat := toNat_ofNat16 (n := headers.length) (by simp [maxRecordHeaders] at hcount; omega)
    have hfrom := decodeHeadersFrom_bytes h (putUint16 (.ofNat headers.length)) [] 0
    rw [List.append_nil, length_putUint16] at hfrom
    have hslice : slice (putUint16 (.ofNat headers.length) ++ headers.flatMap Header.bytes) 0 2 =
        putUint16 (.ofNat headers.length) := slice_left _ _ _ (by simp)
    rw [decodeHeaders, if_neg (by simp)]
    simp only [checks_ok, hslice, uint16_put, hnat, length_append, length_putUint16]
    exact ⟨by omega, by omega, by omega, _, hfrom, by simp, rfl⟩

theorem RawRecord.size_ok {r : RawRecord} (h : r.size = .ok n) :
    (∀ x ∈ r.headers, HeaderOk x) ∧ r.headers.length ≤ maxRecordHeaders ∧
      (headersBytes r.headers).length ≤ maxRecordHeaderBytes ∧ r.value.length ≤ maxRecordValueLen ∧
        n = r.bytes.length := by
  simp only [RawRecord.size, recordSize, checks_ok, Nat.not_lt] at h
  obtain ⟨hvalue, headersLen, hlen, hn⟩ := h
  obtain ⟨hall, hcount, heq, hmax⟩ := encodedHeadersLen_ok hlen
  refine ⟨hall, hcount, heq ▸ hmax, hvalue, ?_⟩
  rw [← hn, heq]
  simp [RawRecord.bytes, recordHeaderSize]
  omega

theorem scanRawRecord_bytes {r : RawRecord} (h : r.size = .ok n) (pre post : Bytes) :
    scanRawRecord (pre ++ (r.bytes ++ post)) pre.length = .ok (r, pre.length + r.bytes.length) := by
  obtain ⟨hall, hcount, hheaders, hvalue, -⟩ := RawRecord.size_ok h
  simp only [maxRecordHeaderBytes, maxRecordValueLen] at hheaders hvalue
  have hheadersNat := toNat_ofNat32 (n := (headersBytes r.headers).length) (by omega)
  have hvalueNat := toNat_ofNat32 (n := r.value.length) (by omega)
  have hbytes : pre ++ (r.bytes ++ post) = pre ++ (putInt64 r.timestampMS ++
      (putUint32 (.ofNat (headersBytes r.headers).length) ++ (putUint32 (.ofNat r.value.length) ++
        (headersBytes r.headers ++ (r.value ++ post))))) := by
    simp [RawRecord.bytes]
  have hsize : r.bytes.length = 16 + (headersBytes r.headers).length + r.value.length := by
    simp [RawRecord.bytes]
    omega
  have hts : slice (pre ++ (r.bytes ++ post)) pre.length (pre.length + 8) = putInt64 r.timestampMS := by
    rw [hbytes]
    exact slice_at _ _ _ _ _ rfl (by simp)
  have hheadersLen : slice (pre ++ (r.bytes ++ post)) (pre.length + 8) (pre.length + 12) =
      putUint32 (.ofNat (headersBytes r.headers).length) := by
    rw [hbytes, ← append_assoc]
    exact slice_at _ _ _ _ _ (by simp) (by simp)
  have hvalueLen : slice (pre ++ (r.bytes ++ post)) (pre.length + 12) (pre.length + 16) =
      putUint32 (.ofNat r.value.length) := by
    rw [hbytes, ← append_assoc, ← append_assoc]
    exact slice_at _ _ _ _ _ (by simp) (by simp)
  have hheadersBytes : slice (pre ++ (r.bytes ++ post)) (pre.length + 16)
      (pre.length + 16 + (headersBytes r.headers).length) = headersBytes r.headers := by
    rw [hbytes, ← append_assoc, ← append_assoc, ← append_assoc]
    exact slice_at _ _ _ _ _ (by simp) rfl
  have hvalueBytes : slice (pre ++ (r.bytes ++ post)) (pre.length + 16 + (headersBytes r.headers).length)
      (pre.length + 16 + (headersBytes r.headers).length + r.value.length) = r.value := by
    rw [hbytes, ← append_assoc, ← append_assoc, ← append_assoc, ← append_assoc]
    exact slice_at _ _ _ _ _ (by simp; omega) rfl
  simp only [scanRawRecord, checks_ok, hts, hheadersLen, hvalueLen, uint32_put, int64_put, hheadersNat, hvalueNat,
    recordHeaderSize, hheadersBytes, hvalueBytes, length_append, hsize, maxRecordHeaderBytes, maxRecordValueLen]
  refine ⟨by omega, by omega, by omega, r.headers, decodeHeaders_bytes hall hcount, rfl, ?_⟩
  rw [Nat.add_assoc, Nat.add_assoc, Nat.add_assoc]

/-! ## A block's records are scanned in order -/

/-- The records of a block, in the order of their timestamps and inside the block's range. -/
structure Packed (block : BlockPreamble) (records : List RawRecord) : Prop where
  sized : ∀ r ∈ records, ∃ n, r.size = .ok n
  count : block.recordCount.toNat = records.length
  ordered : records.Pairwise (·.timestampMS ≤ ·.timestampMS)
  inRange : ∀ r ∈ records, block.minTimestampMS ≤ r.timestampMS ∧ r.timestampMS ≤ block.maxTimestampMS

/-- A raw record with the LSN of its place in the block. -/
def BlockPreamble.record (block : BlockPreamble) (i : Nat) (r : RawRecord) : Record :=
  ⟨block.baseLSN + .ofNat i, r.timestampMS, r.headers, r.value⟩

/-- The records from place `i` of the block on. -/
def BlockPreamble.numbered (block : BlockPreamble) : Nat → List RawRecord → List Record
  | _, [] => []
  | i, r :: records => block.record i r :: block.numbered (i + 1) records

/-- The scanner has read `done` of a block of `done ++ rest`. -/
structure Scans (s : RawBlockScanner) (block : BlockPreamble) (done rest : List RawRecord) : Prop where
  packed : Packed block (done ++ rest)
  sameBlock : s.block = block
  raw : s.raw = (done ++ rest).flatMap RawRecord.bytes
  offset : s.offset = (done.flatMap RawRecord.bytes).length
  index : s.recordIndex.toNat = done.length
  prev : ∀ r ∈ done.getLast?, s.prevTimestampMS = r.timestampMS

variable {s : RawBlockScanner} {block : BlockPreamble} {r : RawRecord} {done rest : List RawRecord}

theorem Scans.next_end (h : Scans s block done []) : s.next = .ok (none, s) := by
  have hcount := h.packed.count
  rw [List.append_nil] at hcount
  rw [RawBlockScanner.next, if_pos (by rw [ge_iff_le, UInt32.le_iff_toNat_le, h.index, h.sameBlock]; omega)]
  simp [h.raw, h.offset]

theorem RawRecord.size_ge (r : RawRecord) : recordHeaderSize ≤ r.bytes.length := by
  simp [RawRecord.bytes, recordHeaderSize]
  omega

/-- The last record read is not later than the next one. -/
theorem Scans.prev_le (h : Scans s block done (r :: rest)) (hpos : 0 < s.recordIndex) :
    s.prevTimestampMS ≤ r.timestampMS := by
  have hdone : done ≠ [] := by
    intro hnil
    have hindex := h.index
    rw [UInt32.lt_iff_toNat_lt, hindex, hnil] at hpos
    exact Nat.lt_irrefl _ hpos
  rw [h.prev _ (List.getLast?_eq_getLast_of_ne_nil hdone)]
  exact (List.pairwise_append.1 h.packed.ordered).2.2 _ (List.getLast_mem hdone) r (by simp)

theorem Scans.next_record (h : Scans s block done (r :: rest)) :
    ∃ s', s.next = .ok (some (block.record done.length r), s') ∧ Scans s' block (done ++ [r]) rest := by
  have hcount := h.packed.count
  rw [length_append, List.length_cons] at hcount
  obtain ⟨n, hsized⟩ := h.packed.sized r (by simp)
  obtain ⟨hmin, hmax⟩ := h.packed.inRange r (by simp)
  have hbound := UInt32.toNat_lt block.recordCount
  have hraw : s.raw = done.flatMap RawRecord.bytes ++ (r.bytes ++ rest.flatMap RawRecord.bytes) := by
    simp [h.raw]
  have hscan := scanRawRecord_bytes hsized (done.flatMap RawRecord.bytes) (rest.flatMap RawRecord.bytes)
  rw [← hraw, ← h.offset] at hscan
  have hlen : s.raw.length = s.offset + (r.bytes.length + (rest.flatMap RawRecord.bytes).length) := by
    simp [hraw, h.offset]
  have hsucc : (s.recordIndex + 1).toNat = done.length + 1 := by
    rw [UInt32.toNat_add, h.index, show (1 : UInt32).toNat = 1 from rfl, Nat.mod_eq_of_lt (by omega)]
  refine ⟨⟨s.raw, s.block, s.offset + r.bytes.length, s.recordIndex + 1, r.timestampMS⟩, ?_, ?_⟩
  · rw [RawBlockScanner.next,
      if_neg (by rw [ge_iff_le, UInt32.le_iff_toNat_le, h.index, h.sameBlock]; omega)]
    simp only [checks_ok, h.sameBlock]
    refine ⟨?_, _, hscan, ?_, ?_, ?_, ?_⟩
    · have := r.size_ge
      omega
    · rintro (hlt | hgt)
      · exact Int64.not_lt.2 hmin hlt
      · exact Int64.not_lt.2 hmax hgt
    · rintro ⟨hpos, hlt⟩
      exact Int64.not_lt.2 (h.prev_le hpos) hlt
    · rintro ⟨hlast, hne⟩
      -- the last record ends where the block does
      have hrest : rest = [] := by
        rw [← UInt32.toNat_inj, hsucc] at hlast
        exact List.length_eq_zero_iff.1 (by omega)
      exact hne (by simp [hlen, hrest])
    · have hlsn : s.recordIndex.toUInt64 = .ofNat done.length := by
        rw [← UInt64.toNat_inj, UInt32.toNat_toUInt64, h.index, UInt64.toNat_ofNat']
        omega
      simp [BlockPreamble.record, hlsn]
  · refine ⟨by simpa using h.packed, h.sameBlock, by simpa using h.raw, by simp [h.offset], by simp [hsucc], ?_⟩
    simp

/-- A scanner over the bytes of a block's records stands before the first of them. -/
theorem newRawBlockScanner_ok {records : List RawRecord} (hpacked : Packed block records)
    (hvalid : block.validate = .ok ()) (hraw : (records.flatMap RawRecord.bytes).length = block.rawSize.toNat)
    {last : UInt64} (hlast : lastLSN block.baseLSN block.recordCount = .ok last) :
    ∃ s, newRawBlockScanner (records.flatMap RawRecord.bytes) block = .ok s ∧ Scans s block [] records := by
  refine ⟨⟨records.flatMap RawRecord.bytes, block, 0, 0, 0⟩, ?_, ⟨hpacked, rfl, rfl, rfl, rfl, nofun⟩⟩
  have hfits : records.length * recordHeaderSize ≤ (records.flatMap RawRecord.bytes).length := by
    clear hpacked hraw
    induction records with
    | nil => simp
    | cons r records ih =>
      have := r.size_ge
      rw [List.flatMap_cons, length_append, List.length_cons, Nat.succ_mul]
      omega
  simp only [newRawBlockScanner, validateRawBlockEnvelope, checks_ok]
  refine ⟨⟨hvalid, last, hlast, not_not.2 hraw, ?_⟩, trivial⟩
  have hbound := UInt32.toNat_lt block.rawSize
  have hcount := hpacked.count
  simp only [recordHeaderSize] at hfits
  have hdiv : (u32 ((records.flatMap RawRecord.bytes).length / recordHeaderSize)).toNat =
      (records.flatMap RawRecord.bytes).length / 16 :=
    toNat_ofNat32 (by simp only [recordHeaderSize]; omega)
  rw [gt_iff_lt, UInt32.lt_iff_toNat_lt, hdiv]
  omega

end ObjLog.Segformat
