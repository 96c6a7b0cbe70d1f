import ObjLog.Lib.Groups
import ObjLog.Catengine.Contents
/-!
# The invariant of a head

`Inv` ties a head to the history `l` it stands for. Validation already gives
the shape of the history (`Inv.tiles`, `Inv.times`, `Inv.reachable`); the fields
add what no single object shows: that every page loads, that epochs never fall
from one page to the next, and which entry is the last.
-/

namespace ObjLog.Catengine

open Lib Catformat Pmeta Blobstore

variable [Hashes]

/-- Writer epochs never fall. -/
abbrev EpochOrder (l : List LeafEntry) : Prop := l.IsChain fun a b => a.writerEpoch ≤ b.writerEpoch

structure Inv (config : Config) (pages : Pages) (head : Head) (l : List LeafEntry) : Prop where
  identity : validateConfigHead config head = .ok ()
  valid : HeadOk head
  contents : flat config pages head = .ok l
  epochs : EpochOrder l
  epochMax : ∀ e ∈ l, e.writerEpoch ≤ head.header.writerEpoch
  last : ∀ e ∈ l.getLast?, e = head.lastSegment

/-! ## The history of a valid head -/

/-- The range validation gives a root. -/
def HeadRoot.range : HeadRoot → RootRange
  | .ref r => r.root
  | .leaf e => e.root

omit [Hashes] in
theorem map_range_headRoots (head : Head) : (headRoots head).map HeadRoot.range = head.rootRanges := by
  simp [headRoots, Head.rootRanges, HeadRoot.range, List.map_flatMap, Function.comp_def]

omit [Hashes] in
/-- An active entry covers itself. -/
theorem leafRoot_covers {e : LeafEntry} (h : LeafEntryOk e) : RangeCovers e.root [e] where
  nonempty := by simp
  entries x hx := by rw [List.mem_singleton.1 hx]; exact h
  tiles := ⟨rfl, UInt64.le_iff_toNat_le.1 h.range, rfl⟩
  times := ⟨by simp [LeafEntry.root], by simp [LeafEntry.root], by simp⟩
  count := rfl

omit [Hashes] in
theorem leafRoot_ok {head : Head} (hv : HeadOk head) {e : LeafEntry} (h : .leaf e ∈ headRoots head) :
    LeafEntryOk e := by
  simp only [headRoots, List.mem_append, List.mem_flatMap, List.mem_map, reduceCtorEq, and_false, exists_false,
    false_or, HeadRoot.leaf.injEq, exists_eq_right] at h
  exact (hv.active e h).1

theorem root_covers {config : Config} {pages : Pages} {head : Head} (hv : HeadOk head) {root : HeadRoot}
    {l : List LeafEntry} (hr : root ∈ headRoots head)
    (h : root.leaves config pages head.header.writerEpoch = .ok l) : RangeCovers root.range l := by
  cases root with
  | ref r => exact leaves_covers _ h
  | leaf e =>
    obtain rfl : [e] = l := by simpa [HeadRoot.leaves] using h
    exact leafRoot_covers (leafRoot_ok hv hr)

/-- The pieces of the history, one for each root. -/
theorem flat_ok {config : Config} {pages : Pages} {head : Head} {l : List LeafEntry} : flat config pages head = .ok l ↔
      ∃ ls, List.Forall₂ (fun r m => HeadRoot.leaves config pages head.header.writerEpoch r = .ok m)
        (headRoots head) ls ∧ ls.flatten = l := by
  simp only [flat, map_ok, mapM_ok]

theorem flat_ranges {config : Config} {pages : Pages} {head : Head} {l : List LeafEntry} (hv : HeadOk head)
    (h : flat config pages head = .ok l) : ∃ ls, List.Forall₂ RangeCovers head.rootRanges ls ∧ ls.flatten = l := by
  obtain ⟨ls, hls, rfl⟩ := flat_ok.1 h
  refine ⟨ls, ?_, rfl⟩
  rw [← map_range_headRoots, List.forall₂_map_left_iff]
  exact (forall₂_with_mem hls).imp fun _ _ hx => root_covers hv hx.1 hx.2

namespace Inv

variable {config : Config} {pages : Pages} {head : Head} {l : List LeafEntry}

variable (h : Inv config pages head l)
include h

/-- Either nothing is retained, or the roots cover from the oldest LSN to the last segment. -/
theorem history : (l = [] ∧ head.header.oldestLSN = head.header.nextLSN ∧ head.header.reachableSegmentCount = 0) ∨
    (head.hasLastSegment = true ∧ LastOk head ∧ ∃ t1 t2, Covers head.header.oldestLSN head.lastSegment.lastLSN t1 t2
      head.header.reachableSegmentCount.toNat l) := by
  obtain ⟨ls, hls, rfl⟩ := flat_ranges h.valid h.contents
  rcases h.valid.history with ⟨_, he⟩ | ⟨hlast, hok, ⟨hnil, hret⟩ | ⟨hne, hroots⟩⟩
  · rw [he.roots, List.forall₂_nil_left_iff] at hls
    exact .inl ⟨by simp [hls], he.oldest, he.reachable⟩
  · rw [hnil, List.forall₂_nil_left_iff] at hls
    exact .inl ⟨by simp [hls], hret.oldest, hret.reachable⟩
  · obtain ⟨r, rs, hrs⟩ := List.exists_cons_of_ne_nil hne
    have hcov := covers_ranges (hrs ▸ hroots.chain) (hrs ▸ hls)
    have hfirst := hroots.first r (by simp [hrs])
    rw [← hrs, hroots.last, ← hroots.reachable, hfirst] at hcov
    exact .inr ⟨hlast, hok, _, _, hcov⟩

/-- The history tiles the retained LSN range. -/
theorem tiles : LsnTiles head.header.oldestLSN.toNat head.header.nextLSN.toNat l := by
  rcases h.history with ⟨rfl, ho, _⟩ | ⟨_, hok, _, _, hcov⟩
  · exact congrArg UInt64.toNat ho
  · rw [← hok.next, toNat_succ_of_room hok.entry.maxLSN]
    exact hcov.tiles

theorem times : l.IsChain fun a b => a.maxTimestampMS ≤ b.minTimestampMS := by
  rcases h.history with ⟨rfl, _, _⟩ | ⟨_, _, _, _, hcov⟩
  · exact .nil
  · exact hcov.times.chain

theorem reachable : l.length = head.header.reachableSegmentCount.toNat := by
  rcases h.history with ⟨rfl, _, hr⟩ | ⟨_, _, _, _, hcov⟩
  · simp [hr]
  · exact hcov.count

theorem entries : ∀ e ∈ l, LeafEntryOk e := by
  rcases h.history with ⟨rfl, _, _⟩ | ⟨_, _, _, _, hcov⟩
  · simp
  · exact hcov.entries

end Inv

end ObjLog.Catengine
