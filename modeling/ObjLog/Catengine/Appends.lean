import ObjLog.Catengine.Chain
/-!
# The committed appends

`AppendedAt w n e`: the commit after index `n` appended the entry `e`. The
history of a durable head is made of committed appends, and holds every one
that its oldest LSN has not passed (`Linear.history`). Since each append starts
where the last one ended, no entry is appended twice (`AppendedAt.unique`).
-/

namespace ObjLog.Catengine

open Lib Catformat Pmeta Blobstore
open Config (entryOf)

variable {head : Head} {segment : SegmentRef} {m : Mutation}

variable [Hashes] {config : Config} {w : World} {n k : Nat} {b c : Commit} {e : LeafEntry}

def AppendedAt (config : Config) (w : World) (n : Nat) (e : LeafEntry) : Prop :=
  ∃ b c segment m, w.log[n]? = some b ∧ w.log[n + 1]? = some c ∧
    append config (b.head config) segment = .ok m ∧ m.headBody = c.body ∧ Config.entryOf segment = e

/-! ## One append -/

section
variable (h : append config head segment = .ok m)
include h

/-- Where an entry ends it has not yet ended before it began. -/
theorem append_range : segment.baseLSN ≤ segment.lastLSN ∧ segment.baseLSN = head.header.nextLSN ∧
      segment.writerEpoch = head.header.writerEpoch ∧ m.head.lastSegment = entryOf segment ∧
      m.head.hasLastSegment = true := by
  obtain ⟨active, ss, hc, _, hhead, _⟩ := append_ok h
  have hconv := hc.converts
  simp only [Config.leafEntry, SegmentRef.validate, checks_ok] at hconv
  refine ⟨UInt64.not_lt.1 hconv.1.2.2.2.1, hc.base, hc.epoch, by rw [hhead], ?_⟩
  rw [hhead, Head.hasLastSegment, decide_eq_true_eq]
  exact appendHeader_flag head (entryOf segment)

/-- The reference of an appended entry is the segment that was appended. -/
theorem append_segmentRef : config.segmentRef (entryOf segment) = segment := by
  obtain ⟨_, _, hc, _⟩ := append_ok h
  have hconv := hc.converts
  simp only [Config.leafEntry, checks_ok, not_or, not_not, ne_eq] at hconv
  obtain ⟨_, ⟨hstream, hpart⟩, _, huri, _⟩ := hconv
  cases segment
  simp only [Config.segmentRef, entryOf] at *
  rw [← hstream, ← hpart, ← huri]

/-- An append depends on the segment through its entry. -/
theorem append_det {segment' : SegmentRef} {m' : Mutation} (h' : append config head segment' = .ok m')
    (he : entryOf segment = entryOf segment') : m = m' := by
  simp only [append, bind_ok] at h h'
  obtain ⟨entry, hcheck, h⟩ := h
  obtain ⟨entry', hcheck', h'⟩ := h'
  rw [leafEntry_eq (checkAppend_ok.1 hcheck).converts] at h
  rw [leafEntry_eq (checkAppend_ok.1 hcheck').converts, ← he] at h'
  obtain ⟨x, hx, body, hbody, hm⟩ := h
  obtain ⟨x', hx', body', hbody', hm'⟩ := h'
  obtain rfl := Except.ok.inj (hx.symm.trans hx')
  obtain rfl := Except.ok.inj (hbody.symm.trans hbody')
  exact Except.ok.inj (hm.symm.trans hm')

end

/-- Two neighbours with an append between them. -/
structure Appends (head head' : Head) (e : LeafEntry) : Prop where
  base : head.header.nextLSN = e.baseLSN
  range : e.baseLSN ≤ e.lastLSN
  next : head'.header.nextLSN.toNat = e.lastLSN.toNat + 1
  epoch : head.header.writerEpoch = e.writerEpoch
  last : head'.lastSegment = e

section
variable (h : Linear config w) (ha : AppendedAt config w n e)
include h ha

theorem AppendedAt.appends :
    ∃ b c, w.log[n]? = some b ∧ w.log[n + 1]? = some c ∧ Appends (b.head config) (c.head config) e := by
  obtain ⟨b, c, segment, m, hb, hc, happ, hbody, rfl⟩ := ha
  obtain ⟨_, _, _, _, _, hm⟩ := append_ok happ
  have hhead : c.head config = m.head := by
    obtain ⟨_, he⟩ := h.reachable hc
    rw [← hbody] at he
    exact Except.ok.inj ((parse_marshalHead he.marshal).symm.trans (parse_marshalHead hm))
  obtain ⟨hrange, hbase, hepoch, hlast, _⟩ := append_range happ
  exact ⟨b, c, hb, hc, hbase.symm, hrange, by rw [hhead]; exact (append_counters happ).2, hepoch.symm,
    by rw [hhead]; exact hlast⟩

/-- The two neighbours of an append are those the log has there. -/
theorem AppendedAt.appends_of (hb : w.log[n]? = some b)
    (hc : w.log[n + 1]? = some c) : Appends (b.head config) (c.head config) e := by
  obtain ⟨b', c', hb', hc', happ⟩ := ha.appends h
  rw [hb] at hb'
  rw [hc] at hc'
  obtain rfl := Option.some.inj hb'
  obtain rfl := Option.some.inj hc'
  exact happ

/-- No entry is appended twice. -/
theorem AppendedAt.unique (ha' : AppendedAt config w k e) : n = k := by
  have hlt : ∀ {n k}, AppendedAt config w n e → AppendedAt config w k e → ¬ n < k := by
    intro n k ha ha' hnk
    obtain ⟨_, c, _, hc, happ⟩ := ha.appends h
    obtain ⟨b, _, hb, _, happ'⟩ := ha'.appends h
    have hle := UInt64.le_iff_toNat_le.1 (h.progress hnk hc hb).nextLSN
    have hrange := UInt64.le_iff_toNat_le.1 happ.range
    rw [happ'.base, happ.next] at hle
    omega
  rcases Nat.lt_trichotomy n k with hnk | hnk | hnk
  · exact absurd hnk (hlt ha ha')
  · exact hnk
  · exact absurd hnk (hlt ha' ha)

/-- Takeovers and retention append nothing. -/
theorem AppendedAt.nextLSN_ne (hb : w.log[n]? = some b)
    (hc : w.log[n + 1]? = some c) : (c.head config).header.nextLSN ≠ (b.head config).header.nextLSN := by
  intro heq
  have happ := ha.appends_of h hb hc
  have hrange := UInt64.le_iff_toNat_le.1 happ.range
  have hnext := happ.next
  rw [heq, happ.base] at hnext
  omega

end

/-! ## Histories -/

/-- How the history of a durable head comes from that of an earlier one: by appends in between, in order and without
gaps, and by giving up a front part that the oldest LSN has passed. -/
structure Between (config : Config) (w : World) (n k : Nat) (head head' : Head) (l l' new dropped : List LeafEntry) :
    Prop where
  inv : Inv config w.pages head' l'
  moved : l ++ new = dropped ++ l'
  appended : ∀ e, e ∈ new ↔ ∃ j, n ≤ j ∧ j < k ∧ AppendedAt config w j e
  passed : ∀ e ∈ dropped, e.lastLSN < head'.header.oldestLSN
  tiles : LsnTiles head.header.oldestLSN.toNat head'.header.nextLSN.toNat (l ++ new)
  last : head'.lastSegment = head.lastSegment ∧ head'.hasLastSegment = head.hasLastSegment ∨ head'.lastSegment ∈ new

theorem Linear.between {l : List LeafEntry} (h : Linear config w) (hnk : n ≤ k) (hb : w.log[n]? = some b)
    (hc : w.log[k]? = some c) (hi : Inv config w.pages (b.head config) l) :
    ∃ l' new dropped, Between config w n k (b.head config) (c.head config) l l' new dropped := by
  induction k, hnk using Nat.le_induction generalizing c with
  | base =>
    obtain rfl := Option.mem_unique hb hc
    refine ⟨l, [], [], hi, by simp, fun e => ?_, by simp, by simpa using hi.tiles, .inl ⟨rfl, rfl⟩⟩
    simp only [List.not_mem_nil, false_iff, not_exists, not_and]
    omega
  | succ k hnk ih =>
    obtain ⟨d, hd⟩ := World.exists_le (Nat.le_succ k) hc
    obtain ⟨m, new, dropped, hbet⟩ := ih hd
    obtain ⟨hr, _⟩ := h.reachable hd
    have hm := hbet.inv
    have hpassed : ∀ e ∈ dropped, e.lastLSN < (c.head config).header.oldestLSN := fun e he =>
      UInt64.lt_of_lt_of_le (hbet.passed e he) (h.step_progress hd hc).1.oldestLSN
    -- a commit that moves no LSN appended nothing
    have hquiet : (c.head config).header.nextLSN = (d.head config).header.nextLSN →
        ∀ e, e ∈ new ↔ ∃ j, n ≤ j ∧ j < k + 1 ∧ AppendedAt config w j e := by
      intro heq e
      rw [hbet.appended]
      refine exists_congr fun j => and_congr_right fun _ => ⟨fun ⟨hj, ha⟩ => ⟨Nat.lt_succ_of_lt hj, ha⟩, fun ⟨hj, ha⟩ => ?_⟩
      rcases Nat.lt_or_eq_of_le (Nat.le_of_lt_succ hj) with hlt | rfl
      · exact ⟨hlt, ha⟩
      · exact absurd heq (ha.nextLSN_ne h hd hc)
    obtain ⟨mutation, hmut, hhead, hbody⟩ := h.step hd hc
    generalize c.author = author at hmut
    cases hmut with
    | takeover ht =>
      have heq := hhead.symm.trans (takeover_ok ht).1.eq
      have hi' := takeover_inv hm ht (Grows.refl _)
      rw [hhead] at hi'
      exact ⟨m, new, dropped, hi', hbet.moved, hquiet (by rw [heq]), hpassed, by rw [heq]; exact hbet.tiles,
        by rw [heq]; exact hbet.last⟩
    | @append _ _ segment _ ha _ hs =>
      have hself : AppendedAt config w k (entryOf segment) := ⟨d, c, segment, mutation, hd, hc, ha, hbody, rfl⟩
      have happ := hself.appends_of h hd hc
      have hi' := append_inv hm ha (Grows.refl _) hs
      rw [hhead] at hi'
      refine ⟨m ++ [entryOf segment], new ++ [entryOf segment], dropped, hi', ?_, fun e => ?_,
        hpassed, ?_, .inr (mem_concat.2 (.inr happ.last))⟩
      · rw [← List.append_assoc, hbet.moved, List.append_assoc]
      · rw [mem_concat, hbet.appended]
        constructor
        · rintro (⟨j, hnj, hj, ha'⟩ | rfl)
          · exact ⟨j, hnj, Nat.lt_succ_of_lt hj, ha'⟩
          · exact ⟨k, hnk, Nat.lt_succ_self k, hself⟩
        · rintro ⟨j, hnj, hj, ha'⟩
          rcases Nat.lt_or_eq_of_le (Nat.le_of_lt_succ hj) with hlt | rfl
          · exact .inl ⟨j, hnj, hlt, ha'⟩
          · exact .inr ((ha'.appends_of h hd hc).last.symm.trans happ.last)
      · rw [← List.append_assoc]
        refine Tiles.append_iff.2 ⟨_, hbet.tiles, ?_⟩
        exact ⟨congrArg UInt64.toNat happ.base.symm, UInt64.le_iff_toNat_le.1 happ.range, happ.next.symm⟩
    | @retention _ _ before version _ he hv _ hs =>
      obtain ⟨_, happ⟩ := retention_progress hr he hv hs
      obtain ⟨kept, hi', hkept⟩ := applyRetention_inv hm he (Grows.refl _) hs
      rw [hhead] at hi'
      have hheader := happ.header
      rw [hhead] at hheader
      have hnext : (c.head config).header.nextLSN = (d.head config).header.nextLSN := by rw [hheader]
      -- what goes is the part of the history before the new oldest LSN
      obtain ⟨gone, rfl⟩ : ∃ gone, m = gone ++ kept := by
        rw [hkept hv, ← drop_searchList_filter m (endsFrom_upward hm.tiles _)]
        exact ⟨_, (List.take_append_drop _ m).symm⟩
      obtain ⟨a, hgone, hrest⟩ := Tiles.append_iff.1 hm.tiles
      rw [← hnext] at hrest
      obtain rfl := hrest.start_unique hi'.tiles
      refine ⟨kept, new, dropped ++ gone, hi', by rw [hbet.moved, List.append_assoc], hquiet hnext, fun e he => ?_,
        by rw [hnext]; exact hbet.tiles, ?_⟩
      · rcases List.mem_append.1 he with he | he
        · exact hpassed e he
        · exact UInt64.lt_iff_toNat_lt.2 (hgone.mem_bounds he).2.2
      · have hlast : (c.head config).lastSegment = (d.head config).lastSegment := by rw [← hhead]; exact happ.last
        rw [hlast, Head.hasLastSegment, hheader]
        exact hbet.last

/-- What the history of a durable head owes to the appends before it. -/
structure Owes (config : Config) (w : World) (n : Nat) (head : Head) (l : List LeafEntry) : Prop where
  contents : flat config w.pages head = .ok l
  appended : ∀ e ∈ l, ∃ k < n, AppendedAt config w k e
  complete : ∀ k e, k < n → AppendedAt config w k e → head.header.oldestLSN ≤ e.baseLSN → e ∈ l
  last : head.hasLastSegment = true → ∃ k < n, AppendedAt config w k head.lastSegment

theorem Starts.empty {pages : Pages} {author : Author} {body : Bytes}
    (h : Starts config author head body) : Inv config pages head [] ∧ head.hasLastSegment = false := by
  have hnew : ∀ {n : UInt64} {head : Head} {body : Bytes}, newHead config n = .ok (head, body) →
      Inv config pages head [] ∧ head.hasLastSegment = false := by
    intro n head body hn
    refine ⟨newHead_inv hn, ?_⟩
    simp only [newHead, checks_ok] at hn
    obtain ⟨_, _, _, rfl, _⟩ := hn
    simp [Head.hasLastSegment, emptyHead]
  cases h with
  | created hn => exact hnew hn
  | taken hn ht =>
    obtain ⟨hi, hno⟩ := hnew hn
    refine ⟨takeover_inv hi ht (Grows.refl _), ?_⟩
    rw [(takeover_ok ht).1.eq]
    exact hno

theorem Linear.history_inv (h : Linear config w) (hc : w.log[n]? = some c) :
    ∃ l, Owes config w n (c.head config) l ∧ Inv config w.pages (c.head config) l := by
  obtain ⟨a, ha⟩ := World.exists_le (Nat.zero_le n) hc
  obtain ⟨head, hs⟩ := h.first a ha
  obtain ⟨hi, hno⟩ : Inv config w.pages head [] ∧ head.hasLastSegment = false := hs.empty
  obtain ⟨_, henc⟩ : Reachable config w.pages head ∧ Encodes config head a.body := hs.reachable
  rw [← henc.commit_head] at hi hno
  obtain ⟨l, new, dropped, hbet⟩ := h.between (Nat.zero_le n) ha hc hi
  have hnew : ∀ e ∈ new, ∃ k < n, AppendedAt config w k e := fun e he => by
    obtain ⟨k, _, hk⟩ := (hbet.appended e).1 he
    exact ⟨k, hk⟩
  have hmoved : ∀ e, e ∈ new ↔ e ∈ dropped ∨ e ∈ l := fun e => by
    rw [← List.mem_append, ← hbet.moved, List.nil_append]
  refine ⟨l, ⟨hbet.inv.contents, fun e he => hnew e ((hmoved e).2 (.inr he)), fun k e hk ha hle => ?_, fun hyes => ?_⟩,
    hbet.inv⟩
  · refine ((hmoved e).1 ((hbet.appended e).2 ⟨k, Nat.zero_le k, hk, ha⟩)).resolve_left fun hgone => ?_
    obtain ⟨_, _, _, _, happ⟩ := ha.appends h
    exact UInt64.lt_irrefl _ (UInt64.lt_of_le_of_lt (UInt64.le_trans hle happ.range) (hbet.passed e hgone))
  · exact hnew _ (hbet.last.resolve_left fun hsame => by simp [hsame.2, hno] at hyes)

theorem Linear.history (h : Linear config w) (hc : w.log[n]? = some c) : ∃ l, Owes config w n (c.head config) l :=
  (h.history_inv hc).imp fun _ hl => hl.1

end ObjLog.Catengine
