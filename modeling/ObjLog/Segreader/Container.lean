import ObjLog.Segformat.Canonical
import ObjLog.Segreader
/-!
# The segment container

Every part of a segment object has exactly one encoding, and an index that fits
its trailer says where every byte and every LSN of the segment is: the blocks
tile the object up to the index and the LSNs of the segment, and `Scan` picks
the block an LSN is in.
-/

namespace ObjLog

open Lib Segformat
open Catformat (HashAlgo hashBytes maxRecordLSN)

variable {t : Trailer} {entries : List BlockIndexEntry} {size : UInt64}

namespace Segreader

/-! ## The block of an LSN -/

theorem toNat_blockLastLSN {e : BlockIndexEntry} (h : e.validate = .ok ()) : (blockLastLSN e).toNat = e.last := by
  obtain ⟨hpos, hmax, -⟩ := BlockIndexEntry.validate_ok h
  rw [toNat_maxRecordLSN] at hmax
  have hsum : (e.baseLSN + e.recordCount.toUInt64).toNat = e.baseLSN.toNat + e.recordCount.toNat := by
    rw [UInt64.toNat_add, UInt32.toNat_toUInt64]
    omega
  have hone : (1 : UInt64).toNat = 1 := rfl
  rw [blockLastLSN, UInt64.toNat_sub_of_le _ _ (by rw [UInt64.le_iff_toNat_le, hsum, hone]; omega), hsum, hone]
  rfl

/-- The search of `Scan`, in numbers. -/
theorem searchList_entries (h : ∀ e ∈ entries, e.validate = .ok ()) (fromLSN : UInt64) :
    (searchList entries fun e => blockLastLSN e ≥ fromLSN) = searchList entries fun e => decide (fromLSN.toNat ≤ e.last) := by
  refine searchList_congr fun e he => ?_
  rw [decide_eq_decide, ge_iff_le, UInt64.le_iff_toNat_le, toNat_blockLastLSN (h e he)]

/-- `lsn` is in the block of entry `k` and in no other. -/
structure InBlock (entries : List BlockIndexEntry) (lsn : UInt64) (k : Nat) : Prop where
  contains : ∃ e, entries[k]? = some e ∧ e.first ≤ lsn.toNat ∧ lsn.toNat ≤ e.last
  unique : ∀ i e, entries[i]? = some e → e.first ≤ lsn.toNat → lsn.toNat ≤ e.last → i = k

variable {E : Type} {A : E → Type}

/-- `Scan` starts at the block the LSN is in. -/
theorem scan_inBlock {r : Reader E A} {a b : Nat}
    (h : Indexed r.trailer.baseLSN.toNat (r.trailer.lastLSN.toNat + 1) a b r.index) (ctx : Ctx E A) {lsn : UInt64}
    (hbase : r.trailer.baseLSN ≤ lsn) (hlast : lsn ≤ r.trailer.lastLSN) :
    ∃ k, InBlock r.index lsn k ∧ r.scan ctx lsn = (do checkCtx ctx; return ⟨k, lsn, none, false⟩) := by
  have hlo := UInt64.le_iff_toNat_le.1 hbase
  have hhi := UInt64.le_iff_toNat_le.1 hlast
  obtain ⟨e, hget, hfirst, hend⟩ := h.lsns.searchList_contains hlo (Nat.lt_succ_of_le hhi)
  rw [← searchList_entries h.valid] at hget
  refine ⟨_, ⟨⟨e, hget, hfirst, hend⟩, fun i e' he' hf hl => h.lsns.index_unique he' hget ⟨hf, hl⟩ ⟨hfirst, hend⟩⟩, ?_⟩
  have hin : ¬(searchList r.index fun e => blockLastLSN e ≥ lsn) ≥ r.index.length :=
    Nat.not_le.2 (List.getElem?_eq_some_iff.1 hget).1
  simp only [Reader.scan, gt_iff_lt, UInt64.not_lt.2 hlast, UInt64.not_lt.2 hbase, if_false, hin]

end Segreader

/-! ## The index is exact -/

namespace Segformat

/-- The number of records a valid trailer counts. -/
theorem trailer_records (h : t.validate size = .ok ()) :
    t.baseLSN.toNat + t.recordCount.toNat = t.lastLSN.toNat + 1 := by
  simp only [Trailer.validate, checks_ok, not_not, UInt64.not_lt] at h
  obtain ⟨-, -, -, -, hle, hmax, -, -, -, -, hrecords, -⟩ := h
  rw [UInt64.le_iff_toNat_le] at hle hmax
  rw [toNat_maxRecordLSN] at hmax
  have hnat := congrArg UInt64.toNat hrecords
  rw [UInt64.toNat_add, UInt64.toNat_sub_of_le _ _ (UInt64.le_iff_toNat_le.2 hle), UInt32.toNat_toUInt64,
    show (1 : UInt64).toNat = 1 from rfl] at hnat
  omega

/-- The conversion of the entry count in `ValidateIndex` loses nothing. -/
theorem blockCount_exact (ht : t.validate size = .ok ())
    (h : validateIndex entries t = .ok ()) : entries.length = t.blockCount.toNat := by
  obtain ⟨hcount, hindexed, -⟩ := validateIndex_ok h
  have hfew := hindexed.lsns.length_le
  have hrecords := trailer_records ht
  have hlt := t.recordCount.toNat_lt
  rw [← hcount, u32, UInt32.toNat_ofNat']
  omega

/-- `MarshalBlockIndex` and `ParseBlockIndex` are inverse on the indexes that fit the trailer. -/
theorem marshalBlockIndex_iff [Hashes] {buf : Bytes} {preamble : IndexPreamble} :
    marshalBlockIndex entries t = .ok (buf, preamble) ↔
      parseBlockIndex buf t.hashAlgo = .ok (preamble, entries) ∧ validateIndex entries t = .ok () := by
  constructor
  · intro h
    obtain ⟨hindex, -, hparse⟩ := marshalBlockIndex_ok h
    exact ⟨hparse, hindex⟩
  · rintro ⟨hparse, hindex⟩
    exact marshal_blockIndex hparse hindex

/-- What `MarshalBinary` of a trailer wrote is read back with the hash it computed, under any size the trailer fits. -/
theorem parse_marshalTrailer [Hashes] {buf : Bytes} (h : t.marshal = .ok buf) (hsize : t.validate size = .ok ()) :
    ∃ hash, hashBytes t.hashAlgo (t.bytes 0) = .ok hash ∧ parseTrailer buf size = .ok { t with trailerHash := hash } := by
  simp only [Trailer.marshal, checks_ok] at h
  obtain ⟨-, hash, hhash, rfl⟩ := h
  exact ⟨hash, hhash, parse_trailer hsize hhash⟩

end Segformat

namespace Segreader

/-- The parts of a segment object have one encoding each, and the index of a segment is exact. -/
theorem container_canonical [Hashes] : (∀ (p : FilePreamble) buf, p.marshal = .ok buf ↔ parseFilePreamble buf = .ok p) ∧
    (∀ (p : BlockPreamble) buf, p.marshal = .ok buf ↔ parseBlockPreamble buf = .ok p) ∧
    (∀ (p : IndexPreamble) buf, p.marshal = .ok buf ↔ parseIndexPreamble buf = .ok p) ∧
    (∀ (e : BlockIndexEntry) buf, e.marshal = .ok buf ↔ parseBlockIndexEntry buf = .ok e) ∧
    (∀ entries t buf preamble, marshalBlockIndex entries t = .ok (buf, preamble) ↔
      parseBlockIndex buf t.hashAlgo = .ok (preamble, entries) ∧ validateIndex entries t = .ok ()) ∧
    (∀ (t : Trailer) buf size, t.marshal = .ok buf → t.validate size = .ok () → ∃ hash,
      hashBytes t.hashAlgo (t.bytes 0) = .ok hash ∧ parseTrailer buf size = .ok { t with trailerHash := hash }) ∧
    (∀ (t : Trailer) buf size, parseTrailer buf size = .ok t → t.marshal = .ok buf) ∧
    (∀ (t : Trailer) size entries, t.validate size = .ok () → validateIndex entries t = .ok () →
      entries.length = t.blockCount.toNat ∧
      Tiles BlockIndexEntry.start BlockIndexEntry.stop 64 t.blockIndexOffset.toNat entries ∧
      Tiles BlockIndexEntry.first BlockIndexEntry.last t.baseLSN.toNat (t.lastLSN.toNat + 1) entries ∧
      ∀ (E : Type) (A : E → Type) (r : Reader E A) ctx lsn, r.trailer = t → r.index = entries →
        t.baseLSN ≤ lsn → lsn ≤ t.lastLSN →
          ∃ k, InBlock entries lsn k ∧ r.scan ctx lsn = (do checkCtx ctx; return ⟨k, lsn, none, false⟩)) := by
  refine ⟨fun p buf => ⟨fun h => ?_, marshal_filePreamble⟩, fun p buf => ⟨fun h => ?_, marshal_blockPreamble⟩,
    fun p buf => ⟨fun h => ?_, marshal_indexPreamble⟩, fun e buf => ⟨fun h => ?_, marshal_blockIndexEntry⟩,
    fun _ _ _ _ => marshalBlockIndex_iff, fun _ _ _ => parse_marshalTrailer, fun _ _ _ => marshal_trailer, ?_⟩
  · obtain ⟨hvalid, rfl⟩ := FilePreamble.marshal_ok.1 h
    exact parse_filePreamble hvalid
  · obtain ⟨hvalid, rfl⟩ := BlockPreamble.marshal_ok.1 h
    exact parse_blockPreamble hvalid
  · obtain ⟨hvalid, rfl⟩ := IndexPreamble.marshal_ok.1 h
    exact parse_indexPreamble hvalid
  · obtain ⟨hvalid, rfl⟩ := BlockIndexEntry.marshal_ok.1 h
    exact parse_blockIndexEntry hvalid
  · intro t size entries ht hindex
    obtain ⟨-, hindexed, -⟩ := validateIndex_ok hindex
    refine ⟨blockCount_exact ht hindex, hindexed.bytes, hindexed.lsns, ?_⟩
    rintro E A r ctx lsn rfl rfl hbase hlast
    exact scan_inBlock hindexed ctx hbase hlast

namespace Sample

@[reducible] def hashes : Hashes := ⟨fun _ => .zero 32, fun _ => 0, fun _ => 0⟩

/-- A block with one record, `offset` bytes into the object. -/
def entry (offset : UInt64) : BlockIndexEntry := ⟨offset, 16, 16, 1, 0, 0, 0, 0⟩

def trailer : Trailer :=
  ⟨0, 0, .none, .crc32c, .v1, 0, 0, 0, 0, 1, 1, 144, 128, 464, 0, .zero 16, .zero 16, 0, 0⟩

end Sample

/-- A segment of one record. -/
theorem container_canonical_one : (Sample.trailer.validate 464 = .ok () ∧
    validateIndex [Sample.entry 64] Sample.trailer = .ok ()) ∧
      Tiles BlockIndexEntry.start BlockIndexEntry.stop 64 144 [Sample.entry 64] :=
  letI := Sample.hashes
  have htrailer : Sample.trailer.validate 464 = .ok () := by rfl
  have hindex : validateIndex [Sample.entry 64] Sample.trailer = .ok () := by rfl
  ⟨⟨htrailer, hindex⟩, (container_canonical.2.2.2.2.2.2.2 Sample.trailer 464 _ htrailer hindex).2.1⟩

/-- `ParseBlockIndex` accepts an index that begins at byte 0 of the object, which `MarshalBlockIndex` never writes. -/
theorem parseBlockIndex_accepts_more : letI := Sample.hashes
    let preamble : IndexPreamble := ⟨0, 64, 1, 0⟩
    parseBlockIndex (preamble.bytes ++ (Sample.entry 0).bytes) .crc32c = .ok (preamble, [Sample.entry 0]) ∧
      ∀ t, t.hashAlgo = .crc32c → ∃ err, marshalBlockIndex [Sample.entry 0] t = .error err := by
  intro preamble
  let _ := Sample.hashes
  have hflat : [Sample.entry 0].flatMap BlockIndexEntry.bytes = (Sample.entry 0).bytes := by simp
  constructor
  · rw [← hflat]
    refine parse_blockIndex rfl rfl rfl fun e he => ?_
    obtain rfl := List.mem_singleton.1 he
    rfl
  · intro t _
    cases h : marshalBlockIndex [Sample.entry 0] t with
    | error err => exact ⟨err, rfl⟩
    | ok out =>
      obtain ⟨buf, preamble⟩ := out
      -- a valid index begins after the file preamble
      obtain ⟨-, hindexed, -⟩ := validateIndex_ok (marshalBlockIndex_ok h).1
      exact absurd hindexed.bytes.1 (by decide)

end Segreader

end ObjLog
