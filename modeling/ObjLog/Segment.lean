import ObjLog.Lib.Tiling
import ObjLog.Segformat.RawBlock
/-!
# What a valid index says

The blocks of a valid index tile the bytes of the object and the LSNs of the segment
(`Indexed`), so the block with an LSN is where the index says.
-/

namespace ObjLog

open Lib Catformat Segformat

namespace Segformat

/-- The largest LSN as a number. -/
theorem toNat_maxRecordLSN : maxRecordLSN.toNat = 18446744073709551614 := rfl

theorem lastLSN_ok {base last : UInt64} {count : UInt32} (h : lastLSN base count = .ok last) :
    0 < count.toNat ∧ last.toNat + 1 = base.toNat + count.toNat ∧ last.toNat ≤ maxRecordLSN.toNat := by
  simp only [lastLSN, checks_ok, UInt64.not_lt] at h
  obtain ⟨hcount, hbase, rfl⟩ := h
  have hpos : count.toNat ≠ 0 := fun hzero => hcount (UInt32.toNat_inj.1 hzero)
  have hlt := count.toNat_lt
  have hdelta : (count - 1).toUInt64.toNat = count.toNat - 1 := by
    rw [UInt32.toNat_toUInt64, UInt32.toNat_sub_of_le _ _ (by rw [UInt32.le_iff_toNat_le]; exact Nat.one_le_iff_ne_zero.2 hpos)]
    rfl
  rw [UInt64.le_iff_toNat_le, UInt64.toNat_sub_of_le _ _ (by
    rw [UInt64.le_iff_toNat_le, hdelta, toNat_maxRecordLSN]; omega), hdelta] at hbase
  rw [UInt64.toNat_add, hdelta]
  rw [toNat_maxRecordLSN] at hbase ⊢
  omega

theorem nextLSN_ok {base next : UInt64} {count : UInt32} (h : nextLSN base count = .ok next) :
    next.toNat = base.toNat + count.toNat := by
  simp only [nextLSN, checks_ok] at h
  obtain ⟨last, hlast, rfl⟩ := h
  obtain ⟨-, hnat, hmax⟩ := lastLSN_ok hlast
  rw [toNat_maxRecordLSN] at hmax
  rw [UInt64.toNat_add, show (1 : UInt64).toNat = 1 from rfl]
  omega

theorem nextBlockOffset_ok {offset next : UInt64} {storedSize : UInt32}
    (h : nextBlockOffset offset storedSize = .ok next) : next.toNat = offset.toNat + 64 + storedSize.toNat := by
  simp only [nextBlockOffset, checks_ok, UInt64.not_lt] at h
  obtain ⟨hoffset, hsize, rfl⟩ := h
  have hlt := storedSize.toNat_lt
  have h64 : (u64 maxUint64 - u64 blockPreambleSize).toNat = 18446744073709551615 - 64 := rfl
  have hmax : (u64 maxUint64).toNat = 18446744073709551615 := rfl
  have hpre : (u64 blockPreambleSize).toNat = 64 := rfl
  rw [UInt64.le_iff_toNat_le, h64] at hoffset
  rw [UInt64.le_iff_toNat_le, UInt64.toNat_sub_of_le _ _ (by
    rw [UInt64.le_iff_toNat_le, UInt32.toNat_toUInt64, hmax]; omega), UInt64.toNat_add, UInt32.toNat_toUInt64,
    hmax, hpre] at hsize
  rw [UInt64.toNat_add, UInt64.toNat_add, UInt32.toNat_toUInt64, hpre]
  omega

namespace BlockIndexEntry

variable (e : BlockIndexEntry)

/-- The LSNs of the block. -/
def first : Nat := e.baseLSN.toNat
def last : Nat := e.baseLSN.toNat + e.recordCount.toNat - 1

/-- The bytes of the block. -/
def start : Nat := e.blockOffset.toNat
def stop : Nat := e.blockOffset.toNat + (64 + e.storedSize.toNat) - 1

variable {e}

theorem validate_ok (h : e.validate = .ok ()) :
    0 < e.recordCount.toNat ∧ e.baseLSN.toNat + e.recordCount.toNat ≤ maxRecordLSN.toNat + 1 ∧
      e.minTimestampMS ≤ e.maxTimestampMS := by
  simp only [BlockIndexEntry.validate, validateBlock, checks_ok] at h
  obtain ⟨-, -, -, -, -, -, last, hlast, hts⟩ := h
  obtain ⟨hpos, hnat, hmax⟩ := lastLSN_ok hlast
  exact ⟨hpos, by omega, Int64.not_lt.1 hts⟩

end BlockIndexEntry

/-- The entries cover the LSNs and the bytes from `a` to `b`, and their timestamps do not go back. -/
structure Indexed (lsn lsn' offset offset' : Nat) (entries : List BlockIndexEntry) : Prop where
  valid : ∀ e ∈ entries, e.validate = .ok ()
  lsns : Tiles BlockIndexEntry.first BlockIndexEntry.last lsn lsn' entries
  bytes : Tiles BlockIndexEntry.start BlockIndexEntry.stop offset offset' entries
  ordered : entries.Pairwise fun a b => a.maxTimestampMS ≤ b.minTimestampMS

theorem Indexed.single {e : BlockIndexEntry} (h : e.validate = .ok ()) :
    Indexed e.first (e.baseLSN.toNat + e.recordCount.toNat) e.start
      (e.blockOffset.toNat + 64 + e.storedSize.toNat) [e] := by
  obtain ⟨hpos, -, -⟩ := BlockIndexEntry.validate_ok h
  refine ⟨by simpa using h, ?_, ?_, by simp⟩
  · refine ⟨rfl, ?_, ?_⟩ <;> simp only [Tiles.nil_iff, BlockIndexEntry.first, BlockIndexEntry.last] <;> omega
  · refine ⟨rfl, ?_, ?_⟩ <;> simp only [Tiles.nil_iff, BlockIndexEntry.start, BlockIndexEntry.stop] <;> omega

/-- The loop of `ValidateIndex`: what it has been through, and the last entry. -/
theorem validateIndexFrom_ok {i : Nat} {prev last : BlockIndexEntry} {sum sum' : UInt64} {entries : List BlockIndexEntry}
    (hprev : prev.validate = .ok ()) (h : validateIndexFrom i prev sum entries = .ok (last, sum')) :
    last ∈ (prev :: entries).getLast? ∧ Indexed prev.first (last.baseLSN.toNat + last.recordCount.toNat) prev.start
      (last.blockOffset.toNat + 64 + last.storedSize.toNat) (prev :: entries) := by
  induction entries generalizing i prev sum with
  | nil =>
    cases h
    exact ⟨rfl, .single hprev⟩
  | cons e entries ih =>
    simp only [validateIndexFrom, validateIndexStep, checks_ok, not_not] at h
    obtain ⟨hvalid, ⟨lsn, hlsn, hbase, offset, hoffset, hblock, hts⟩, hrest⟩ := h
    obtain ⟨hlast, hindexed⟩ := ih hvalid hrest
    refine ⟨by simpa using hlast, ?_⟩
    obtain ⟨hpos, -, -⟩ := BlockIndexEntry.validate_ok hprev
    have hfirst : e.first = prev.baseLSN.toNat + prev.recordCount.toNat := by
      rw [BlockIndexEntry.first, hbase, nextLSN_ok hlsn]
    have hstart : e.start = prev.blockOffset.toNat + 64 + prev.storedSize.toNat := by
      rw [BlockIndexEntry.start, hblock, nextBlockOffset_ok hoffset]
    refine ⟨?_, ?_, ?_, ?_⟩
    · exact List.forall_mem_cons.2 ⟨hprev, hindexed.valid⟩
    · have hnext : prev.last + 1 = e.first := by rw [hfirst, BlockIndexEntry.last]; omega
      refine Tiles.cons_iff.2 ⟨rfl, ?_, hnext ▸ hindexed.lsns⟩
      rw [BlockIndexEntry.first, BlockIndexEntry.last]
      omega
    · have hnext : prev.stop + 1 = e.start := by rw [hstart, BlockIndexEntry.stop]; omega
      refine Tiles.cons_iff.2 ⟨rfl, ?_, hnext ▸ hindexed.bytes⟩
      rw [BlockIndexEntry.start, BlockIndexEntry.stop]
      omega
    · refine List.pairwise_cons.2 ⟨?_, hindexed.ordered⟩
      intro x hx
      have hstep : prev.maxTimestampMS ≤ e.minTimestampMS := Int64.not_lt.1 hts
      -- entries after the next one start where the next one ends, or later
      rcases List.mem_cons.1 hx with rfl | hx
      · exact hstep
      · obtain ⟨-, -, hspan⟩ := BlockIndexEntry.validate_ok hvalid
        exact Int64.le_trans hstep (Int64.le_trans hspan ((List.pairwise_cons.1 hindexed.ordered).1 x hx))

/-- A valid index covers the segment the trailer describes. -/
theorem validateIndex_ok {entries : List BlockIndexEntry} {t : Trailer} (h : validateIndex entries t = .ok ()) :
    u32 entries.length = t.blockCount ∧ Indexed t.baseLSN.toNat (t.lastLSN.toNat + 1) 64 t.blockIndexOffset.toNat entries ∧
      (∀ e ∈ entries.head?, e.minTimestampMS = t.minTimestampMS) ∧
        ∀ e ∈ entries.getLast?, e.maxTimestampMS = t.maxTimestampMS := by
  cases entries with
  | nil => cases h
  | cons first rest =>
    simp only [validateIndex, checks_ok, not_not] at h
    obtain ⟨hcount, hoffset, hvalid, hbase, hmin, ⟨last, sum⟩, hfrom, lsn, hlsn, hlast, index, hindex, hend, hmax, -⟩ := h
    obtain ⟨hmem, hindexed⟩ := validateIndexFrom_ok hvalid hfrom
    obtain ⟨-, hnat, -⟩ := lastLSN_ok hlsn
    have hstart : first.start = 64 := by rw [BlockIndexEntry.start, hoffset]; rfl
    have hfirst : first.first = t.baseLSN.toNat := by rw [BlockIndexEntry.first, hbase]
    rw [hstart, hfirst, ← nextBlockOffset_ok hindex, hend, ← hnat, hlast] at hindexed
    refine ⟨hcount, hindexed, ?_, ?_⟩
    · rintro e ⟨⟩
      exact hmin
    · intro e he
      cases Option.mem_unique hmem he
      exact hmax

end Segformat

end ObjLog
