import ObjLog.Catengine.Appends
import ObjLog.Catengine.Commits
/-!
# What an observed head proves

A session that did not hear whether its swap took effect looks at a later head.
For an append the segment's place in the history decides, as long as retention
has not passed it and the pages can be read. For a retention the recorded policy
and the oldest LSN are compared; a positive answer may be another session's doing.
-/

namespace ObjLog.Catengine

open Lib Catformat Pmeta Blobstore

section
variable [Hashes] {config : Config} {i : Pid} {n k : Nat} {c : Commit} {allow : Head → Head → Prop}
  {w : World} {s : Session} {m : Mutation} {segment : SegmentRef}

/-- A session's own epoch belongs to one process. -/
theorem Linear.pid_of_epoch (h : Linear config w) {b : Commit}
    (hb : w.log[n]? = some b) (hid : (b.head config).header.writerID = i) (hc : w.log[k + 1]? = some c)
    (he : (c.head config).header.writerEpoch = (b.head config).header.writerEpoch) : c.author.pid = i := by
  have howner := h.owner hc
  rw [h.writerID_eq hb hc he, hid] at howner
  exact howner.symm

/-- An append keeps the fence. -/
theorem AppendedAt.epoch (h : Linear config w) {e : LeafEntry} (ha : AppendedAt config w n e) {b d : Commit}
    (hb : w.log[n]? = some b) (hd : w.log[n + 1]? = some d) :
    (b.head config).header.writerEpoch = e.writerEpoch ∧ (d.head config).header.writerEpoch = e.writerEpoch := by
  have hepoch := (ha.appends_of h hb hd).epoch
  refine ⟨hepoch, ?_⟩
  obtain ⟨b', d', seg, m, hb', hd', happ, hbody, _⟩ := ha
  obtain rfl := Option.mem_unique hb hb'
  obtain rfl := Option.mem_unique hd hd'
  obtain ⟨_, henc⟩ := h.reachable hd
  obtain ⟨_, _, _, _, hhead, hm⟩ := append_ok happ
  rw [← hbody] at henc
  have hsame : d.head config = m.head :=
    Except.ok.inj ((parse_marshalHead henc.marshal).symm.trans (parse_marshalHead hm))
  rw [← hepoch, hsame, hhead]
  rfl

/-! ## Appends -/

/-- The session's segment is in the log only as its mutation. -/
theorem Committing.landed_of_appended (h : Committing config i allow s m w)
    (happ : append config s.head segment = .ok m) (ha : AppendedAt config w k (Config.entryOf segment)) :
    Landed w s.token m := by
  obtain ⟨t, b, htoken, hb, hhead⟩ := h.version
  obtain ⟨x, y, hx, hy, hxy⟩ := ha.appends h.linear
  obtain ⟨_, hbase, hepoch, _, _⟩ := append_range happ
  have hnext : (x.head config).header.nextLSN = (b.head config).header.nextLSN := by
    rw [hxy.base, hhead]
    exact hbase
  -- an append before the cached head would have moved its next LSN
  have htk : t ≤ k := by
    by_contra hlt
    have hlt := Nat.lt_of_not_le hlt
    have hle := UInt64.le_iff_toNat_le.1 (h.linear.progress hlt hy hb).nextLSN
    have hrange := UInt64.le_iff_toNat_le.1 hxy.range
    rw [hxy.next, ← hnext, hxy.base] at hle
    omega
  obtain ⟨hxe, hye⟩ := ha.epoch h.linear hx hy
  have hown : y.author.pid = i := by
    refine h.linear.pid_of_epoch hb ?_ hy ?_
    · rw [hhead, h.active.2, h.fence.2.2]
    · rw [hye, hhead]
      exact hepoch
  have hk := h.own (k + 1) y (by rw [htoken]; exact Nat.succ_le_succ htk) hy hown
  rw [htoken] at hk ⊢
  obtain rfl := Nat.succ.inj hk
  obtain rfl := Option.mem_unique hb hx
  obtain ⟨x', y', seg', m', hx', hy', happ', hbody, he⟩ := ha
  obtain rfl := Option.mem_unique hb hx'
  obtain rfl := Option.mem_unique hy hy'
  rw [hhead] at happ'
  exact ⟨y, hy, by rw [← hbody, append_det happ' happ he]⟩

/-- The other way round. -/
theorem Committing.appended_of_landed (h : Committing config i allow s m w)
    (happ : append config s.head segment = .ok m) (hl : Landed w s.token m) :
    ∃ t, s.token = t + 1 ∧ AppendedAt config w t (Config.entryOf segment) := by
  obtain ⟨t, b, htoken, hb, hhead⟩ := h.version
  obtain ⟨c, hc, hbody⟩ := hl
  rw [htoken] at hc
  exact ⟨t, htoken, b, c, segment, m, hb, hc, hhead ▸ happ, hbody.symm, rfl⟩

/-- No retained range has passed the segment, and every page read of the call succeeded. -/
def Readable (config : Config) (segment : SegmentRef) (v : View) : Prop :=
  v.failed = false ∧ ∀ (n : Nat) c, v.world.log[n]? = some c → (c.head config).header.oldestLSN ≤ segment.baseLSN

theorem confirms_append (happ : append config s.head segment = .ok m) :
    Confirms config i allow s m (appendApplied config segment) (Readable config segment)
      (fun _ v => Landed v.world s.token m) where
  antitone v v' hr hcond := ⟨hr.2.2 ▸ hcond.1, fun n c hc => hcond.2 n c (hr.1.kept hc)⟩
  stable := by
    rintro _ v v' hr ⟨c, hc, hb⟩
    exact ⟨c, hr.1.kept hc, hb⟩
  spec v n c h hn hlt := by
    have hlookup : ∀ {v'}, Later config i v v' → ∃ l, Owes config v'.world n (c.head config) l ∧
        Inv config v'.world.pages (c.head config) l := by
      intro v' hlater
      exact (h.rely hlater.rely).linear.history_inv (hlater.rely.kept hn)
    unfold appendApplied
    rw [Env.wpE_bind]
    refine Env.wpE_mono ?_ ?_ (wpE_reader (reader_findSegment _ _) v)
    · rintro found v₁ ⟨hlater, hfound⟩ v₂ hr₂
      have hlater₂ := hlater.trans (.of_rely hr₂)
      have h₂ := h.rely hlater₂.rely
      obtain ⟨l, hl, hi⟩ := hlookup hlater₂
      have hfound₂ := (reader_findSegment _ _).eval_mono hr₂.1.pages hfound
      refine ⟨hlater₂, fun hok => ?_, fun hok htn hcond hlanded => ?_⟩
      · -- found: some append put it there
        rw [of_decide_eq_true hok, findSegment_eq hi, Except.ok.injEq] at hfound₂
        split at hfound₂
        · cases hfound₂
        · obtain ⟨e, hel, hseg, _⟩ := findFlat_some hfound₂
          obtain ⟨k, _, happended⟩ := hl.appended e hel
          have hentry : Config.entryOf segment = e := by
            rw [hseg]
            rfl
          rw [← hentry] at happended
          exact h₂.landed_of_appended happ happended
      · -- not found although it is there
        obtain ⟨t, htoken, happended⟩ := h₂.appended_of_landed happ hlanded
        have htn' : t < n := by
          rw [htoken] at htn
          exact htn
        have hmem := hl.complete t _ htn' happended (hcond.2 n c (hlater₂.rely.kept hn))
        obtain ⟨_, _, _, _, happ'⟩ := happended.appends h₂.linear
        have heval := hi.findSegment_of_mem hmem (UInt64.le_refl _) happ'.range
        rw [append_segmentRef happ] at heval
        exact absurd (Except.ok.inj (hfound₂.symm.trans heval)) (of_decide_eq_false hok)
    · rintro e v₁ ⟨hlater, _, heval⟩
      refine ⟨hlater, fun hcond => ?_⟩
      obtain ⟨_, _, hi⟩ := hlookup hlater
      have herr := heval hcond.1
      rw [findSegment_eq hi] at herr
      cases herr

/-! ## Retention -/

theorem confirms_retention : Confirms config i allow s m (fun observed => pure (retentionApplied observed m))
    (fun _ => True) (fun head _ => retentionApplied head m = true) where
  antitone _ _ _ _ := trivial
  stable _ _ _ _ h := h
  spec v n c h hn hlt := by
    intro v₁ hr₁
    refine ⟨.of_rely hr₁, id, fun hno htn _ hlanded => ?_⟩
    -- once it is there, every later head has passed it
    obtain ⟨d, hd, hbody⟩ := hlanded
    have h₁ := h.rely hr₁.1
    have henc := h₁.encodes
    rw [← hbody] at henc
    have hprog := h₁.linear.progress htn hd (hr₁.1.kept hn)
    rw [henc.commit_head] at hprog
    simp [retentionApplied, hprog.retentionVersion, hprog.oldestLSN] at hno

end

end ObjLog.Catengine
