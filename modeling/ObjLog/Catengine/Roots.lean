import ObjLog.Catengine.Invariant
import ObjLog.Catformat.Canonical
/-!
# A valid head is a complete index

Validation compares neighbouring roots. From that, for any head it accepts: the
roots tile `[oldest_lsn, next_lsn)`, so one root covers an LSN of that range and
none any other, and the search of `FindSegment` stops at that root. Nothing here
depends on how the head came to be.
-/

namespace ObjLog.Catengine

open Lib Catformat Pmeta Blobstore
open UInt64 (le_iff_toNat_le)

variable {head : Head}

/-! ## The roots -/

/-- What validation checks of one root by itself. -/
structure RootOk (r : RootRange) : Prop where
  range : r.seqLo ≤ r.seqHi
  maxLSN : r.seqHi ≤ maxRecordLSN
  timestamps : r.minTS ≤ r.maxTS
  segments : r.segments.toNat ≤ r.seqHi.toNat - r.seqLo.toNat + 1

theorem IndexEntry.rootOk {e : IndexEntry} (h : IndexEntryOk e) : RootOk e.root := by
  refine ⟨h.range, h.maxLSN, h.timestamps, ?_⟩
  have hspan := le_iff_toNat_le.1 h.span
  have hmax := le_iff_toNat_le.1 h.maxLSN
  rw [UInt64.toNat_add, UInt64.toNat_sub_of_le _ _ h.range, show (1 : UInt64).toNat = 1 from rfl] at hspan
  exact Nat.le_trans hspan (Nat.mod_le ..)

theorem LeafEntry.rootOk {e : LeafEntry} (h : LeafEntryOk e) : RootOk e.root :=
  ⟨h.range, h.maxLSN, h.timestamps, Nat.le_add_left 1 _⟩

theorem rootRanges_ok (h : HeadOk head) : ∀ r ∈ head.rootRanges, RootOk r := by
  intro r hr
  simp only [Head.rootRanges, List.mem_append, List.mem_flatMap, List.mem_map, List.mem_reverse] at hr
  rcases hr with ⟨s, hs, e, he, rfl⟩ | ⟨e, he, rfl⟩
  · obtain ⟨j, hj⟩ := List.mem_iff_getElem?.1 hs
    exact IndexEntry.rootOk ((h.sections j s hj).entries e he).entry
  · exact LeafEntry.rootOk (h.active e he).1

/-- The roots tile the retained range. -/
theorem rootRanges_tiles (h : HeadOk head) :
    Tiles (fun r : RootRange => r.seqLo.toNat) (fun r => r.seqHi.toNat) head.header.oldestLSN.toNat
      head.header.nextLSN.toNat head.rootRanges := by
  have hok := rootRanges_ok h
  rcases h.history with ⟨-, hempty⟩ | ⟨-, hlast, ⟨hnil, hret⟩ | ⟨hne, hroots⟩⟩
  · rw [hempty.roots, hempty.oldest]
    rfl
  · rw [hnil, hret.oldest]
    rfl
  · obtain ⟨r, rs, hrs⟩ := List.exists_cons_of_ne_nil hne
    have hchain := hroots.chain
    have hend := hroots.last
    rw [hrs] at hok hchain hend ⊢
    have htiles := tiles_of_isChain .zero (fun y hy => ⟨(hok y hy).range, (hok y hy).maxLSN⟩) (hchain.imp fun _ _ hn => hn.base)
    rw [hend, hroots.first r (by simp [hrs])] at htiles
    rw [← hlast.next, toNat_succ_of_room hlast.entry.maxLSN]
    exact htiles

/-- Ranges whose neighbours do not go back in time do not go back at all. -/
theorem pairwise_times {rs : List RootRange} (hok : ∀ r ∈ rs, r.minTS ≤ r.maxTS)
    (h : rs.IsChain fun a b => a.maxTS ≤ b.minTS) : rs.Pairwise fun a b => a.maxTS ≤ b.minTS := by
  induction rs with
  | nil => exact .nil
  | cons r rs ih =>
    have hrest := ih (fun x hx => hok x (List.mem_cons_of_mem _ hx)) h.tail
    refine List.pairwise_cons.2 ⟨fun x hx => ?_, hrest⟩
    cases rs with
    | nil => cases hx
    | cons f rs =>
      have hnext : r.maxTS ≤ f.minTS := (List.isChain_cons_cons.1 h).1
      rcases List.mem_cons.1 hx with rfl | hx
      · exact hnext
      · have hspan := hok f (by simp)
        exact Int64.le_trans hnext (Int64.le_trans hspan ((List.pairwise_cons.1 hrest).1 x hx))

theorem rootRanges_times (h : HeadOk head) : head.rootRanges.Pairwise fun a b => a.maxTS ≤ b.minTS := by
  refine pairwise_times (fun r hr => (rootRanges_ok h r hr).timestamps) ?_
  rcases h.history with ⟨-, hempty⟩ | ⟨-, -, ⟨hnil, -⟩ | ⟨-, hroots⟩⟩
  · rw [hempty.roots]
    exact .nil
  · rw [hnil]
    exact .nil
  · exact hroots.chain.imp fun _ _ hn => hn.timestamps

theorem reachable_eq (h : HeadOk head) : head.header.reachableSegmentCount.toNat = rootSegments head.rootRanges := by
  rcases h.history with ⟨-, hempty⟩ | ⟨-, -, ⟨hnil, hret⟩ | ⟨-, hroots⟩⟩
  · rw [hempty.roots, hempty.reachable]
    rfl
  · rw [hnil, hret.reachable]
    rfl
  · exact hroots.reachable

/-- There are at most as many segments as LSNs. -/
theorem reachable_le (h : HeadOk head) :
    head.header.oldestLSN.toNat + head.header.reachableSegmentCount.toNat ≤ head.header.nextLSN.toNat := by
  rw [reachable_eq h]
  exact (rootRanges_tiles h).sum_le fun r hr => (rootRanges_ok h r hr).segments

/-! ## Looking up an LSN -/

theorem HeadRoot.range_seqLo (r : HeadRoot) : r.range.seqLo = r.seqLo := by cases r <;> rfl
theorem HeadRoot.range_seqHi (r : HeadRoot) : r.range.seqHi = r.seqHi := by cases r <;> rfl

theorem headRoots_tiles (h : HeadOk head) :
    Tiles (fun r : HeadRoot => r.seqLo.toNat) (fun r => r.seqHi.toNat) head.header.oldestLSN.toNat
      head.header.nextLSN.toNat (headRoots head) := by
  have htiles := rootRanges_tiles h
  rw [← map_range_headRoots] at htiles
  convert htiles.of_map using 1
  · funext r
    exact congrArg UInt64.toNat r.range_seqLo.symm
  · funext r
    exact congrArg UInt64.toNat r.range_seqHi.symm

/-- `r` covers `lsn`. -/
def HeadRoot.Has (lsn : UInt64) (r : HeadRoot) : Prop := r.seqLo ≤ lsn ∧ lsn ≤ r.seqHi

/-- The root the search of `FindSegment` stops at. -/
def rootAt (head : Head) (lsn : UInt64) : Nat := searchList (headRoots head) fun r => r.seqHi ≥ lsn

section
variable [Hashes]

/-- What `FindSegment` does with the root it found. -/
def HeadRoot.find (config : Config) (head : Head) (lsn : UInt64) : HeadRoot → M (Option SegmentRef)
  | .leaf e => pure (some (config.segmentRef e))
  | .ref r => findInPage config lsn r.level.toNat r head.header.writerEpoch

/-- `FindSegment` goes on from the root that covers the LSN. -/
theorem findSegment_root (h : HeadOk head) {lsn : UInt64} (ho : head.header.oldestLSN ≤ lsn)
    (hn : lsn < head.header.nextLSN) : ∃ r, (headRoots head)[rootAt head lsn]? = some r ∧ r.Has lsn ∧
      (∀ i r', (headRoots head)[i]? = some r' → r'.Has lsn → i = rootAt head lsn) ∧
      ∀ config, findSegment config head lsn =
        (do checkCtx; liftM (validateConfigHead config head); r.find config head lsn) := by
  have htiles := headRoots_tiles h
  obtain ⟨r, hget, hlo, hhi⟩ := htiles.searchList_contains (le_iff_toNat_le.1 ho) (UInt64.lt_iff_toNat_lt.1 hn)
  have hsearch : rootAt head lsn = searchList (headRoots head) fun r => decide (lsn.toNat ≤ r.seqHi.toNat) :=
    searchList_congr fun r _ => by rw [decide_eq_decide, ge_iff_le, le_iff_toNat_le]
  rw [← hsearch] at hget
  have hhas : r.Has lsn := ⟨le_iff_toNat_le.2 hlo, le_iff_toNat_le.2 hhi⟩
  have hlast : head.hasLastSegment = true := by
    rcases h.history with ⟨-, hempty⟩ | ⟨hlast, -⟩
    · -- nothing is in range of an empty head
      rw [hempty.oldest, le_iff_toNat_le] at ho
      rw [UInt64.lt_iff_toNat_lt] at hn
      omega
    · exact hlast
  refine ⟨r, hget, hhas, fun i r' hr' hhas' => ?_, fun config => ?_⟩
  · exact htiles.index_unique hr' hget
      ⟨le_iff_toNat_le.1 hhas'.1, le_iff_toNat_le.1 hhas'.2⟩ ⟨hlo, hhi⟩
  · have hout : ¬(!head.hasLastSegment ∨ lsn < head.header.oldestLSN ∨ lsn ≥ head.header.nextLSN) := by
      simp [hlast, ho, hn]
    unfold findSegment
    refine bind_congr fun _ => bind_congr fun _ => ?_
    rw [if_neg hout]
    rw [rootAt] at hget
    dsimp only
    rw [hget]
    dsimp only
    rw [if_neg (UInt64.not_lt.2 hhas.1)]
    cases r <;> rfl

/-- Outside the retained range no root covers the LSN, and `FindSegment` finds nothing. -/
theorem findSegment_outside (h : HeadOk head) {lsn : UInt64}
    (hout : ¬(head.header.oldestLSN ≤ lsn ∧ lsn < head.header.nextLSN)) : (∀ r ∈ headRoots head, ¬r.Has lsn) ∧
      (∀ r, (headRoots head)[rootAt head lsn]? = some r → lsn < r.seqLo) ∧ ∀ config, findSegment config head lsn =
        (do checkCtx; liftM (validateConfigHead config head); pure none) := by
  have hnone : ∀ r ∈ headRoots head, ¬r.Has lsn := by
    rintro r hr ⟨hlo, hhi⟩
    obtain ⟨h1, -, h3⟩ := (headRoots_tiles h).mem_bounds hr
    rw [le_iff_toNat_le] at hlo hhi
    exact hout ⟨le_iff_toNat_le.2 (by omega), UInt64.lt_iff_toNat_lt.2 (by omega)⟩
  refine ⟨hnone, fun r hr => ?_, fun config => ?_⟩
  · have hmem := List.mem_of_getElem? hr
    have hup : Upward (fun r : HeadRoot => decide (r.seqHi ≥ lsn)) (headRoots head) := by
      refine ((headRoots_tiles h).upward lsn.toNat).imp fun {x y} hxy => ?_
      simpa only [ge_iff_le, le_iff_toNat_le] using hxy
    rw [rootAt, getElem?_searchList _ hup] at hr
    have hhi : lsn ≤ r.seqHi := by simpa using List.find?_some hr
    exact UInt64.not_le.1 fun hlo => hnone r hmem ⟨hlo, hhi⟩
  · have hcond : !head.hasLastSegment ∨ lsn < head.header.oldestLSN ∨ lsn ≥ head.header.nextLSN := by
      by_cases ho : head.header.oldestLSN ≤ lsn
      · exact .inr (.inr (UInt64.not_lt.1 fun hn => hout ⟨ho, hn⟩))
      · exact .inr (.inl (UInt64.not_le.1 ho))
    unfold findSegment
    refine bind_congr fun _ => bind_congr fun _ => ?_
    rw [if_pos hcond]

theorem parseHead_ok {encoded : Bytes} (h : parseHead encoded = .ok head) : HeadOk head := by
  have hmarshal := marshal_parseHead h
  simp only [marshalHead, checks_ok] at hmarshal
  exact (validateHead_ok head).1 hmarshal.1

/-- Any head that `ParseHead` accepts is a complete index of its retained range. -/
theorem parsed_head_complete {encoded : Bytes} {head : Head} (h : parseHead encoded = .ok head) :
    Tiles (fun r : HeadRoot => r.seqLo.toNat) (fun r => r.seqHi.toNat) head.header.oldestLSN.toNat
      head.header.nextLSN.toNat (headRoots head) ∧
    ((headRoots head).map HeadRoot.range).Pairwise (fun a b => a.maxTS ≤ b.minTS) ∧
    (∀ r ∈ headRoots head, r.range.minTS ≤ r.range.maxTS) ∧
    head.header.reachableSegmentCount.toNat = ((headRoots head).map (·.range.segments.toNat)).sum ∧
    head.header.reachableSegmentCount ≤ head.header.nextLSN - head.header.oldestLSN ∧
    head.header.oldestLSN ≤ head.header.nextLSN ∧ head.header.reachableSegmentCount ≤ head.header.segmentCount ∧
    (∀ lsn, head.header.oldestLSN ≤ lsn → lsn < head.header.nextLSN →
      ∃ r, (headRoots head)[rootAt head lsn]? = some r ∧ r.Has lsn ∧
        (∀ i r', (headRoots head)[i]? = some r' → r'.Has lsn → i = rootAt head lsn) ∧
        ∀ config, findSegment config head lsn =
          (do checkCtx; liftM (validateConfigHead config head); r.find config head lsn)) ∧
    ∀ lsn, ¬(head.header.oldestLSN ≤ lsn ∧ lsn < head.header.nextLSN) → (∀ r ∈ headRoots head, ¬r.Has lsn) ∧
        (∀ r, (headRoots head)[rootAt head lsn]? = some r → lsn < r.seqLo) ∧ ∀ config, findSegment config head lsn =
          (do checkCtx; liftM (validateConfigHead config head); pure none) := by
  have hok := parseHead_ok h
  refine ⟨headRoots_tiles hok, ?_, fun r hr => ?_, ?_, ?_, hok.header.oldest, hok.header.reachable,
    fun lsn => findSegment_root hok, fun lsn => findSegment_outside hok⟩
  · rw [map_range_headRoots]
    exact rootRanges_times hok
  · refine (rootRanges_ok hok r.range ?_).timestamps
    rw [← map_range_headRoots]
    exact List.mem_map_of_mem hr
  · rw [reachable_eq hok, ← map_range_headRoots, rootSegments, List.map_map]
    rfl
  · have hle := reachable_le hok
    rw [UInt64.le_iff_toNat_le, UInt64.toNat_sub_of_le _ _ hok.header.oldest]
    omega

end

namespace Sample

/-- Three records in one segment, which is still in the open leaf. -/
def openLeaf : LeafEntry :=
  ⟨0, 2, 0, 0, 3, 1, 1, 0, 1, .none, .crc32c, 0, 0, 1, ⟨List.replicate 16 1, rfl⟩, ⟨List.replicate 16 1, rfl⟩⟩

def openHead : Head :=
  ⟨⟨1, 0, .crc32c, 1, 2, 2, 1, 0, 3, 0, 0, 0, 1, 1, 1, 1, ⟨List.replicate 16 1, rfl⟩, ⟨List.replicate 32 1, rfl⟩,
    ⟨List.replicate 32 1, rfl⟩⟩, openLeaf, [openLeaf], []⟩

end Sample

theorem parsed_head_complete_open : letI : Hashes := ⟨fun _ => .zero 32, fun _ => 0, fun _ => 0⟩
    ∃ encoded, parseHead encoded = .ok Sample.openHead ∧
      Tiles (fun r : HeadRoot => r.seqLo.toNat) (fun r => r.seqHi.toNat) 0 3 [.leaf Sample.openLeaf] := by
  let _ : Hashes := ⟨fun _ => .zero 32, fun _ => 0, fun _ => 0⟩
  have hvalid : validateHead Sample.openHead = .ok () := rfl
  obtain ⟨encoded, hencoded⟩ := appendTrailer_ok (show validateHashAlgo .crc32c = .ok () from rfl) (headBody Sample.openHead)
  have hparse : parseHead encoded = .ok Sample.openHead :=
    parse_marshalHead (by simp only [marshalHead, bind_ok, hvalid, exists_unit, true_and]; exact hencoded)
  exact ⟨encoded, hparse, (parsed_head_complete hparse).1⟩

end ObjLog.Catengine
