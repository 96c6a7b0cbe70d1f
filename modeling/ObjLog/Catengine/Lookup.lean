import ObjLog.Catengine.Steps
/-!
# Lookups agree with the history

A lookup searches the roots, then one page at each level. Every reference
summarises the entries below it by its upper bounds, so the descent ends at the
entry a search of the whole history would find.
-/

namespace ObjLog.Catengine

open Lib Catformat Pmeta Blobstore

variable [Hashes]

variable {config : Config} {head : Head}

variable {l : List LeafEntry} {lo hi : UInt64} {t1 t2 : Int64} {n : Nat} {pages : Pages}

/-! ## The two orders a lookup searches by -/

/-- Ends at `lsn` or later. -/
def endsFrom (lsn : UInt64) (e : LeafEntry) : Bool := e.lastLSN ≥ lsn

/-- Reaches `timestampMS` or later. -/
def reaches (timestampMS : Int64) (e : LeafEntry) : Bool := e.maxTimestampMS ≥ timestampMS

omit [Hashes] in
theorem endsFrom_upward {a b : Nat} (h : LsnTiles a b l) (lsn : UInt64) : Upward (endsFrom lsn) l := by
  refine (h.upward lsn.toNat).imp fun {x y} hxy => ?_
  simpa only [endsFrom, decide_eq_true_eq, ge_iff_le, UInt64.le_iff_toNat_le] using hxy

omit [Hashes] in
/-- Maxima never fall along a history in time order. -/
theorem reaches_upward (hok : ∀ e ∈ l, LeafEntryOk e)
    (h : l.IsChain fun a b => a.maxTimestampMS ≤ b.minTimestampMS) (t : Int64) : Upward (reaches t) l := by
  induction l with
  | nil => exact .nil
  | cons a l ih =>
    have htail := ih (fun e he => hok e (List.mem_cons_of_mem _ he)) h.tail
    refine Upward.cons_iff.2 ⟨fun b hb ha => ?_, htail⟩
    cases l with
    | nil => simp at hb
    | cons c l =>
      obtain ⟨hac, _⟩ := List.isChain_cons_cons.1 h
      have hc := (hok c (List.mem_cons_of_mem _ List.mem_cons_self)).timestamps
      have hreach : reaches t c = true := by
        simp only [reaches, ge_iff_le, decide_eq_true_eq] at ha ⊢
        exact Int64.le_trans (Int64.le_trans ha hac) hc
      rcases List.mem_cons.1 hb with rfl | hb
      · exact hreach
      · exact (Upward.cons_iff.1 htail).1 b hb hreach

omit [Hashes] in
theorem covers_summary_lsn {β : Type} {r : β}
    {seqHi : β → UInt64} (h : Covers lo hi t1 t2 n l) (hr : seqHi r = hi) (lsn : UInt64) :
    Summary (endsFrom lsn) (fun r => decide (seqHi r ≥ lsn)) r l := by
  refine ⟨h.nonempty, fun e he => ?_⟩
  have hend : e.lastLSN = hi := UInt64.toNat_inj.1 (Nat.add_right_cancel (h.tiles.getLast_eq he))
  simp only [endsFrom, hr, hend]

omit [Hashes] in
theorem covers_summary_time {β : Type} {r : β}
    {maxTS : β → Int64} (h : Covers lo hi t1 t2 n l) (hr : maxTS r = t2) (t : Int64) :
    Summary (reaches t) (fun r => decide (maxTS r ≥ t)) r l := by
  refine ⟨h.nonempty, fun e he => ?_⟩
  simp only [reaches, hr, h.times.last e he]

/-! ## Descending by LSN -/

/-- The answer of a lookup that stopped at `e`. -/
def answerAt (config : Config) (lsn : UInt64) (e : LeafEntry) : Option SegmentRef :=
  if e.baseLSN > lsn then none else some (config.segmentRef e)

/-- The first entry of a history that ends at `lsn` or later, if it has begun by then. -/
def findFlat (config : Config) (lsn : UInt64) (l : List LeafEntry) : Option SegmentRef :=
  (l.find? (endsFrom lsn)).bind (answerAt config lsn)

/-- Nothing is found before a history begins. -/
theorem findFlat_before
    (h : Covers lo hi t1 t2 n l) {lsn : UInt64} (hlsn : lo > lsn) : findFlat config lsn l = none := by
  obtain ⟨e, es, rfl⟩ := List.exists_cons_of_ne_nil h.nonempty
  have hbase : e.baseLSN = lo := UInt64.toNat_inj.1 h.tiles.1
  have hrange := (h.entries e List.mem_cons_self).range
  have hends : endsFrom lsn e = true := by
    simp only [endsFrom, ge_iff_le, decide_eq_true_eq]
    exact UInt64.le_trans (UInt64.le_of_lt (hbase ▸ hlsn)) hrange
  rw [findFlat, List.find?_cons_of_pos hends, Option.bind_some, answerAt, if_pos (hbase ▸ hlsn)]

theorem findInPage_eq (lsn : UInt64) (depth : Nat) {ref : IndexEntry} {e : UInt64}
    (h : leaves config pages depth ref e = .ok l) :
    eval pages (findInPage config lsn depth ref e) = .ok (findFlat config lsn l) := by
  induction depth using Nat.strongRecOn generalizing ref e l with
  | ind depth ih =>
    have hcov := leaves_covers _ h
    have hup := endsFrom_upward hcov.tiles lsn
    rw [findInPage.eq_def]
    obtain ⟨h0, page, hp, rfl⟩ | ⟨h0, d, page, ls, rfl, hp, hls, rfl⟩ := leaves_cases.1 h
    · rw [if_pos h0, eval_bind, hp]
      change eval pages _ = _
      rw [show page.entries[searchList page.entries fun e => decide (e.lastLSN ≥ lsn)]? =
        page.entries.find? (endsFrom lsn) from getElem?_searchList _ hup, findFlat]
      cases page.entries.find? (endsFrom lsn) <;> rfl
    · have hsum : ∀ r m, leaves config pages d r page.header.writerEpoch = .ok m →
          Summary (endsFrom lsn) (fun r : IndexEntry => decide (r.seqHi ≥ lsn)) r m :=
        fun _ _ hx => covers_summary_lsn (leaves_covers _ hx) rfl lsn
      rw [if_neg h0]
      dsimp only
      rw [eval_bind, hp]
      change eval pages _ = _
      rw [getElem?_searchList _ (upward_summaries (hls.imp hsum) hup), findFlat]
      rcases find?_groups hsum hls hup with ⟨hnone, hflat⟩ | ⟨r, m, hchild, hsome, hflat⟩
      · rw [hnone, hflat]
        rfl
      · rw [hsome, hflat]
        dsimp only
        split
        · rename_i hgt
          exact congrArg Except.ok (findFlat_before (leaves_covers _ hchild) hgt).symm
        · exact ih d (Nat.lt_succ_self d) hchild

/-! ## Descending by timestamp -/

theorem findTimestampInPage_eq (t : Int64) (depth : Nat) {ref : IndexEntry}
    {e : UInt64} (h : leaves config pages depth ref e = .ok l) :
    eval pages (findTimestampInPage config t depth ref e) = .ok ((l.find? (reaches t)).map config.segmentRef) := by
  induction depth using Nat.strongRecOn generalizing ref e l with
  | ind depth ih =>
    have hcov := leaves_covers _ h
    have hup := reaches_upward hcov.entries hcov.times.chain t
    rw [findTimestampInPage.eq_def]
    obtain ⟨h0, page, hp, rfl⟩ | ⟨h0, d, page, ls, rfl, hp, hls, rfl⟩ := leaves_cases.1 h
    · rw [if_pos h0, eval_bind, hp, ← getElem?_searchList _ hup]
      rfl
    · have hsum : ∀ r m, leaves config pages d r page.header.writerEpoch = .ok m →
          Summary (reaches t) (fun r : IndexEntry => decide (r.maxTimestampMS ≥ t)) r m :=
        fun _ _ hx => covers_summary_time (leaves_covers _ hx) rfl t
      rw [if_neg h0]
      dsimp only
      rw [eval_bind, hp]
      change eval pages _ = _
      rw [getElem?_searchList _ (upward_summaries (hls.imp hsum) hup)]
      rcases find?_groups hsum hls hup with ⟨hnone, hflat⟩ | ⟨r, m, hchild, hsome, hflat⟩
      · rw [hnone, hflat]
        rfl
      · rw [hsome, hflat]
        exact ih d (Nat.lt_succ_self d) hchild

/-! ## From the head -/

/-- A root of the head and what is below it. -/
def RootHolds (config : Config) (pages : Pages) (head : Head) (root : HeadRoot) (l : List LeafEntry) : Prop :=
  root ∈ headRoots head ∧ root.leaves config pages head.header.writerEpoch = .ok l

theorem Inv.roots (h : Inv config pages head l) :
    ∃ ls, List.Forall₂ (RootHolds config pages head) (headRoots head) ls ∧ ls.flatten = l := by
  obtain ⟨ls, hls, rfl⟩ := flat_ok.1 h.contents
  exact ⟨ls, forall₂_with_mem hls, rfl⟩

theorem RootHolds.covers {root : HeadRoot} {m : List LeafEntry}
    (hv : HeadOk head) (h : RootHolds config pages head root m) : RangeCovers root.range m :=
  root_covers hv h.1 h.2

/-- `FindSegment` is a search of the history inside the retained range. -/
theorem findSegment_eq (h : Inv config pages head l) (lsn : UInt64) : eval pages (findSegment config head lsn) =
      .ok (if !head.hasLastSegment ∨ lsn < head.header.oldestLSN ∨ lsn ≥ head.header.nextLSN then none
        else findFlat config lsn l) := by
  simp only [findSegment, reads_ok, h.identity]
  change eval pages (if _ then _ else _) = _
  split
  · rfl
  · obtain ⟨ls, hls, rfl⟩ := h.roots
    have hup := endsFrom_upward h.tiles lsn
    have hsum : ∀ r m, RootHolds config pages head r m →
        Summary (endsFrom lsn) (fun r : HeadRoot => decide (r.seqHi ≥ lsn)) r m := by
      intro r m hr
      exact covers_summary_lsn (hr.covers h.valid) (by cases r <;> rfl) lsn
    rw [getElem?_searchList _ (upward_summaries (hls.imp hsum) hup), findFlat]
    rcases find?_groups hsum hls hup with ⟨hnone, hflat⟩ | ⟨r, m, hr, hsome, hflat⟩
    · rw [hnone, hflat]
      rfl
    · rw [hsome, hflat]
      have hcov := hr.covers h.valid
      have hlo : r.range.seqLo = r.seqLo := by cases r <;> rfl
      dsimp only
      split
      · rename_i hgt
        exact congrArg Except.ok (findFlat_before hcov (hlo ▸ hgt)).symm
      · rename_i hle
        cases r with
        | ref r => exact findInPage_eq lsn _ hr.2
        | leaf e =>
          obtain rfl : [e] = m := by simpa [HeadRoot.leaves] using hr.2
          have hq := List.find?_some hsome
          have hends : endsFrom lsn e = true := hq
          have hbegun : ¬ e.baseLSN > lsn := hle
          rw [List.find?_cons_of_pos hends, Option.bind_some, answerAt, if_neg hbegun]
          rfl

/-- `LookupTimestamp` is a search of the history. -/
theorem lookupTimestamp_eq (h : Inv config pages head l) (t : Int64) : eval pages (lookupTimestamp config head t) =
      .ok (if !head.hasLastSegment ∨ head.header.oldestLSN = head.header.nextLSN ∨
          t > head.lastSegment.maxTimestampMS then none else (l.find? (reaches t)).map config.segmentRef) := by
  simp only [lookupTimestamp, reads_ok, h.identity]
  change eval pages (if _ then _ else _) = _
  split
  · rfl
  · obtain ⟨ls, hls, rfl⟩ := h.roots
    have hup := reaches_upward h.entries h.times t
    have hsum : ∀ r m, RootHolds config pages head r m →
        Summary (reaches t) (fun r : HeadRoot => decide (r.maxTimestamp ≥ t)) r m := by
      intro r m hr
      exact covers_summary_time (hr.covers h.valid) (by cases r <;> rfl) t
    rw [getElem?_searchList _ (upward_summaries (hls.imp hsum) hup)]
    rcases find?_groups hsum hls hup with ⟨hnone, hflat⟩ | ⟨r, m, hr, hsome, hflat⟩
    · rw [hnone, hflat]
      rfl
    · rw [hsome, hflat]
      cases r with
      | ref r => exact findTimestampInPage_eq t _ hr.2
      | leaf e =>
        obtain rfl : [e] = m := by simpa [HeadRoot.leaves] using hr.2
        have hq := List.find?_some hsome
        have hreach : reaches t e = true := hq
        rw [List.find?_cons_of_pos hreach]
        rfl

end ObjLog.Catengine
