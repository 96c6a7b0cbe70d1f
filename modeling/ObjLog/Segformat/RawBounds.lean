import ObjLog.Segformat.RawCanonical
/-!
# The raw block readers stay inside their input

The decoder and the scanner of `Segformat.RawBlock` once more, with the bounds
checks Go makes at every slice. A record's slices are only in range because its
caller has seen its fixed part, so the lemma on `scanRawRecord` asks for it.
-/

namespace ObjLog.Segformat

open Lib

variable {block : BlockPreamble} {raw : Bytes}

namespace Bounded

def decodeHeadersFrom (buf : Bytes) (i off : Nat) : Nat → Checked Err (List Header × Nat)
  | 0 => pure ([], off)
  | n + 1 => do
    Checked.failIf (buf.length - off < 4) (invalid "truncated record header entry")
    let keyLen := (uint16 (← sliceAt buf off (off + 2))).toNat
    let valueLen := (uint16 (← sliceAt buf (off + 2) (off + 4))).toNat
    let off := off + 4
    Checked.failIf (keyLen = 0) (invalid s!"header {i} key is empty")
    Checked.failIf (keyLen > maxRecordHeaderKeyLen)
      (.of .recordTooLarge s!"header {i} key_len={keyLen} max={maxRecordHeaderKeyLen}")
    Checked.failIf (valueLen > maxRecordHeaderValueLen)
      (.of .recordTooLarge s!"header {i} value_len={valueLen} max={maxRecordHeaderValueLen}")
    Checked.failIf (buf.length - off < keyLen + valueLen) (invalid "truncated record header bytes")
    let header : Header :=
      ⟨← sliceAt buf off (off + keyLen), ← sliceAt buf (off + keyLen) (off + keyLen + valueLen)⟩
    let (headers, stop) ← decodeHeadersFrom buf (i + 1) (off + (keyLen + valueLen)) n
    pure (header :: headers, stop)

def decodeHeaders (buf : Bytes) : Checked Err (List Header) :=
  if buf.length = 0 then pure []
  else do
    Checked.failIf (buf.length < 2) (invalid "truncated record headers")
    let count := (uint16 (← sliceAt buf 0 2)).toNat
    Checked.failIf (count = 0) (invalid "zero header count in non-empty headers")
    Checked.failIf (count > maxRecordHeaders) (.of .recordTooLarge s!"header_count={count} max={maxRecordHeaders}")
    let (headers, off) ← decodeHeadersFrom buf 0 2 count
    Checked.failIf (off ≠ buf.length) (invalid s!"record headers have {buf.length - off} trailing bytes")
    pure headers

def scanRawRecord (raw : Bytes) (off : Nat) : Checked Err (RawRecord × Nat) := do
  let ts := int64 (← sliceAt raw off (off + 8))
  let headersLen := (uint32 (← sliceAt raw (off + 8) (off + 12))).toNat
  let valueLen := (uint32 (← sliceAt raw (off + 12) (off + 16))).toNat
  Checked.failIf (headersLen > maxRecordHeaderBytes)
    (.of .recordTooLarge s!"headers_len={headersLen} max={maxRecordHeaderBytes}")
  Checked.failIf (valueLen > maxRecordValueLen)
    (.of .recordTooLarge s!"value_len={valueLen} max={maxRecordValueLen}")
  let headersOff := off + recordHeaderSize
  Checked.failIf (raw.length - headersOff < headersLen + valueLen) (invalid "truncated raw record")
  let valueOff := headersOff + headersLen
  let next := valueOff + valueLen
  let headers ← decodeHeaders (← sliceAt raw headersOff valueOff)
  pure (⟨ts, headers, ← sliceAt raw valueOff next⟩, next)

def decodeRecordsFrom (raw : Bytes) (block : BlockPreamble) (i : UInt32) (offset : Nat) (prevTimestampMS : Int64) :
    Nat → Checked Err (List Record × Nat)
  | 0 => pure ([], offset)
  | n + 1 => do
    Checked.failIf (raw.length - offset < recordHeaderSize) (invalid "truncated raw record header")
    let (r, next) ← scanRawRecord raw offset
    Checked.failIf (r.timestampMS < block.minTimestampMS ∨ r.timestampMS > block.maxTimestampMS)
      (invalid s!"timestamp={r.timestampMS} outside block range")
    Checked.failIf (i > 0 ∧ r.timestampMS < prevTimestampMS) (invalid s!"timestamp regression at record {i}")
    let (records, stop) ← decodeRecordsFrom raw block (i + 1) next r.timestampMS n
    pure (⟨block.baseLSN + i.toUInt64, r.timestampMS, r.headers, r.value⟩ :: records, stop)

def decodeRawBlock (raw : Bytes) (block : BlockPreamble) : Checked Err (List Record) := do
  Checked.of (validateRawBlockEnvelope raw block)
  let (records, offset) ← decodeRecordsFrom raw block 0 0 0 block.recordCount.toNat
  Checked.failIf (offset ≠ raw.length) (invalid s!"raw block has {raw.length - offset} trailing bytes")
  pure records

/-- `Next`. -/
def next (s : RawBlockScanner) : Checked Err (Option Record × RawBlockScanner) :=
  if s.recordIndex ≥ s.block.recordCount then do
    Checked.failIf (s.offset ≠ s.raw.length) (invalid s!"raw block has {s.raw.length - s.offset} trailing bytes")
    pure (none, s)
  else do
    Checked.failIf (s.raw.length - s.offset < recordHeaderSize) (invalid "truncated raw record header")
    let (r, next) ← scanRawRecord s.raw s.offset
    Checked.failIf (r.timestampMS < s.block.minTimestampMS ∨ r.timestampMS > s.block.maxTimestampMS)
      (invalid s!"timestamp={r.timestampMS} outside block range")
    Checked.failIf (s.recordIndex > 0 ∧ r.timestampMS < s.prevTimestampMS)
      (invalid s!"timestamp regression at record {s.recordIndex}")
    Checked.failIf (s.recordIndex + 1 = s.block.recordCount ∧ next ≠ s.raw.length)
      (invalid s!"raw block has {s.raw.length - next} trailing bytes")
    pure (some ⟨s.block.baseLSN + s.recordIndex.toUInt64, r.timestampMS, r.headers, r.value⟩,
      { s with offset := next, recordIndex := s.recordIndex + 1, prevTimestampMS := r.timestampMS })

open Checked

theorem decodeHeadersFrom_inRange (buf : Bytes) (i off n : Nat) :
    decodeHeadersFrom buf i off n = .of (Segformat.decodeHeadersFrom buf i off n) := by
  induction n generalizing i off with
  | zero => rfl
  | succ n ih =>
    refine failIf_bind fun hroom => ?_
    simp (disch := omega) only [sliceAt_bind]
    refine failIf_bind fun _ => failIf_bind fun _ => failIf_bind fun _ => ?_
    refine failIf_bind fun hbytes => ?_
    simp (disch := omega) only [sliceAt_bind]
    rw [ih]
    exact bind_of fun _ _ => rfl

theorem decodeHeaders_inRange (buf : Bytes) : decodeHeaders buf = .of (Segformat.decodeHeaders buf) := by
  unfold decodeHeaders Segformat.decodeHeaders
  split
  · rfl
  refine failIf_bind fun hroom => ?_
  simp (disch := omega) only [sliceAt_bind]
  refine failIf_bind fun _ => failIf_bind fun _ => ?_
  rw [decodeHeadersFrom_inRange]
  exact bind_of fun _ _ => failIf_bind fun _ => rfl

theorem scanRawRecord_inRange {off : Nat} (h : ¬raw.length - off < recordHeaderSize) :
    scanRawRecord raw off = .of (Segformat.scanRawRecord raw off) := by
  unfold scanRawRecord Segformat.scanRawRecord
  simp only [recordHeaderSize] at h ⊢
  simp (disch := omega) only [sliceAt_bind]
  refine failIf_bind fun _ => failIf_bind fun _ => failIf_bind fun hroom => ?_
  simp (disch := omega) only [sliceAt_bind]
  rw [decodeHeaders_inRange]
  exact bind_of fun _ _ => rfl

theorem decodeRecordsFrom_inRange (i : UInt32) (offset n : Nat) (prev : Int64) :
    decodeRecordsFrom raw block i offset prev n = .of (Segformat.decodeRecordsFrom raw block i offset prev n) := by
  induction n generalizing i offset prev with
  | zero => rfl
  | succ n ih =>
    refine failIf_bind fun hroom => ?_
    rw [scanRawRecord_inRange hroom]
    refine bind_of fun _ _ => failIf_bind fun _ => failIf_bind fun _ => ?_
    rw [ih]
    exact bind_of fun _ _ => rfl

theorem decodeRawBlock_inRange : decodeRawBlock raw block = .of (Segformat.decodeRawBlock raw block) := by
  refine bind_of fun _ _ => ?_
  rw [decodeRecordsFrom_inRange]
  exact bind_of fun _ _ => failIf_bind fun _ => rfl

theorem next_inRange (s : RawBlockScanner) : next s = .of s.next := by
  unfold next RawBlockScanner.next
  split
  · exact failIf_bind fun _ => rfl
  refine failIf_bind fun hroom => ?_
  rw [scanRawRecord_inRange hroom]
  refine bind_of fun _ _ => failIf_bind fun _ => failIf_bind fun _ => ?_
  exact failIf_bind fun _ => rfl

end Bounded

/-- Every record list that encodes is decoded again under each preamble that describes it, with LSNs counted from the
base; every block that decodes is what its records encode to; and a scanner run to its end fails where the decoder
fails, with the same error, after a front of the block's records, and otherwise returns the decoder's records. Neither
slices outside the block. -/
theorem rawBlock_canonical : (∀ records raw block, encodeRawBlock records = .ok raw → Describes block records raw →
      decodeRawBlock raw block = .ok (block.numbered 0 records)) ∧
    (∀ raw block records, decodeRawBlock raw block = .ok records →
      records = block.numbered 0 (records.map Record.raw) ∧ encodeRawBlock (records.map Record.raw) = .ok raw) ∧
    (∀ raw block, ∃ out, scanRawBlock raw block = some (out, (decodeRawBlock raw block).map fun _ => ()) ∧
      (∀ records, decodeRawBlock raw block = .ok records → out = records) ∧
      ∃ records, out = block.numbered 0 records ∧ Front raw block records) ∧
    (∀ raw block, Bounded.decodeRawBlock raw block ≠ .error .outOfRange) ∧
    ∀ s, Bounded.next s = .of s.next ∧ Bounded.next s ≠ .error .outOfRange := by
  refine ⟨fun _ _ _ => decode_encodeRawBlock, fun _ _ _ => encode_decodeRawBlock, scan_decode, fun _ _ => ?_, fun s => ?_⟩
  · rw [Bounded.decodeRawBlock_inRange]
    exact Checked.of_ne_outOfRange _
  · rw [Bounded.next_inRange]
    exact ⟨rfl, Checked.of_ne_outOfRange _⟩

/-- A block of one empty record. -/
theorem rawBlock_canonical_one :
    let block : BlockPreamble := ⟨0, 16, 16, 1, 7, 0, 0, 0⟩
    encodeRawBlock [⟨0, [], []⟩] = .ok (zeros 16) ∧ Describes block [⟨0, [], []⟩] (zeros 16) ∧
      decodeRawBlock (zeros 16) block = .ok [⟨7, 0, [], []⟩] := by
  intro block
  have hencode : encodeRawBlock [⟨0, [], []⟩] = .ok (zeros 16) := by rfl
  have hblock : Describes block [⟨0, [], []⟩] (zeros 16) :=
    ⟨by decide, by rfl, by rfl, by simp only [List.forall_mem_singleton]; decide⟩
  exact ⟨hencode, hblock, rawBlock_canonical.1 _ _ _ hencode hblock⟩

end ObjLog.Segformat
