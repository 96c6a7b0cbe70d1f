import ObjLog.Catengine.AppendAnswers
import ObjLog.Catengine.PageSet
/-!
# Readers of different heads

A reader may hold any durable head while writers go on. All heads are windows
of one log (`Linear.between`), so what two of them both retain they agree on.
A page that is in no tree of a head and not newer than it never comes back.
-/

namespace ObjLog.Catengine

open Lib Catformat Pmeta Blobstore

section
variable [Hashes] {config : Config} {σ : State} {w : World} {n k : Nat} {b c : Commit}

/-- All durable heads are windows of one log: a later head holds what an earlier one held and exactly what was
committed in between, less a front part. -/
theorem heads_share_one_log (h : Reaches config σ) (hnk : n ≤ k)
    (hb : σ.world.log[n]? = some b) (hc : σ.world.log[k]? = some c) : ∃ l l' new dropped,
      flat config σ.world.pages (b.head config) = .ok l ∧
      Between config σ.world n k (b.head config) (c.head config) l l' new dropped := by
  obtain ⟨l, hi⟩ := (h.ok.1.reachable hb).1.inv
  obtain ⟨l', new, dropped, hbetween⟩ := h.ok.1.between hnk hb hc hi
  exact ⟨l, l', new, dropped, hi.contents, hbetween⟩

/-! ## Lookups -/

/-- Two durable heads find the same segment at every LSN that both retain. -/
theorem snapshots_agree {x : UInt64} (h : Reaches config σ) (hnk : n ≤ k) (hb : σ.world.log[n]? = some b)
    (hc : σ.world.log[k]? = some c) (hlo : (c.head config).header.oldestLSN ≤ x)
    (hhi : x < (b.head config).header.nextLSN) : ∃ segment,
      eval σ.world.pages (findSegment config (b.head config) x) = .ok (some segment) ∧
      eval σ.world.pages (findSegment config (c.head config) x) = .ok (some segment) := by
  have hl := h.ok.1
  obtain ⟨l, hi⟩ := (hl.reachable hb).1.inv
  obtain ⟨l', new, dropped, hbet⟩ := hl.between hnk hb hc hi
  have hi' := hbet.inv
  have hprog := hl.progress hnk hb hc
  obtain ⟨e, he, _, heb, hel⟩ := hi.tiles.find_contains
    (UInt64.le_iff_toNat_le.1 (UInt64.le_trans hprog.oldestLSN hlo)) (UInt64.lt_iff_toNat_lt.1 hhi)
  obtain ⟨f, hf, _, hfb, hfl⟩ := hi'.tiles.find_contains (UInt64.le_iff_toNat_le.1 hlo)
    (UInt64.lt_iff_toNat_lt.1 (UInt64.lt_of_lt_of_le hhi hprog.nextLSN))
  -- both are the entry of the common log that holds `x`
  obtain rfl := hbet.tiles.unique (List.mem_append_left new he)
    (hbet.moved ▸ List.mem_append_right dropped hf) ⟨heb, hel⟩ ⟨hfb, hfl⟩
  have hbase := UInt64.le_iff_toNat_le.2 heb
  have hlast := UInt64.le_iff_toNat_le.2 hel
  exact ⟨_, hi.findSegment_of_mem he hbase hlast, hi'.findSegment_of_mem hf hbase hlast⟩

/-- An acknowledged segment is found in every durable head after it, until retention passes it. -/
theorem acknowledged_segments_are_found {i : Pid} {r : Record} {segment : SegmentRef} {state : PartitionHead}
    (h : Reaches config σ) (hr : r ∈ (σ.procs i).done) (hcall : r.call = .append segment)
    (hreply : r.reply = .ok (.appended state)) :
    ∃ k, k + 1 < σ.world.log.length ∧ ∀ (n : Nat) c x, k < n → σ.world.log[n]? = some c →
      (c.head config).header.oldestLSN ≤ segment.baseLSN → segment.baseLSN ≤ x → x ≤ segment.lastLSN →
      eval σ.world.pages (findSegment config (c.head config) x) = .ok (some segment) := by
  have hl := h.ok.1
  obtain ⟨⟨_, htold⟩, _⟩ := h.told hr
  rw [hcall, hreply] at htold
  have hack : Acknowledges config σ.world r.before.writerEpoch segment state := htold.2
  obtain ⟨k, ha⟩ := hack.appended hl
  have hsegment : config.segmentRef (Config.entryOf segment) = segment := by
    obtain ⟨_, _, _, _, _, _, rfl⟩ := hack
    rfl
  obtain ⟨_, y, _, hy, _⟩ := ha.appends hl
  refine ⟨k, (List.getElem?_eq_some_iff.1 hy).1, fun n c x hn hc hold hlo hhi => ?_⟩
  obtain ⟨l, howes, hi⟩ := hl.history_inv hc
  rw [hi.findSegment_of_mem (howes.complete k _ hn ha hold) hlo hhi, hsegment]

/-! ## Pages -/

/-- What a later tree refers to was in the earlier one or is newer than it. -/
theorem unreachable_pages_stay_unreachable {r : IndexEntry} {e : UInt64} (h : Reaches config σ) (hnk : n ≤ k)
    (hb : σ.world.log[n]? = some b) (hc : σ.world.log[k]? = some c)
    (hr : RefBelow config σ.world.pages (c.head config) r e) :
    InTree config σ.world.pages (b.head config) r ∨ (b.head config).header.generation < r.generation := by
  have hl := h.ok.1
  induction k, hnk using Nat.le_induction generalizing c r e with
  | base =>
    obtain rfl := Option.mem_unique hb hc
    exact .inl ⟨e, hr⟩
  | succ k hnk ih =>
    obtain ⟨d, hd⟩ := World.exists_le (Nat.le_succ k) hc
    obtain ⟨l, hi⟩ := (hl.reachable hd).1.inv
    obtain ⟨m, hm, hhead, _⟩ := hl.step hd hc
    have hnew := hl.generation_lt (Nat.lt_succ_of_le hnk) hb hc
    have hlater := hl.generation_lt (Nat.lt_succ_self k) hd hc
    rw [← hhead] at hr hnew hlater
    have hrewriting : Rewriting config σ.world.pages (d.head config) m → Stored σ.world.pages m.pages →
        InTree config σ.world.pages (b.head config) r ∨ (b.head config).header.generation < r.generation := fun hop hs => by
      obtain ⟨_, hrw⟩ := hop.rewrites hi (Grows.refl _) hs
      rcases hrw.old_or_new hi (Grows.refl _) hr with ⟨_, hold⟩ | hobject
      · exact ih hd hold
      · obtain ⟨o, ho, rfl⟩ := List.mem_map.1 hobject
        rw [(hrw.wrote o ho).generation]
        exact .inr hnew
    generalize c.author = author at hm
    cases hm with
    | takeover ht =>
      have hsame : Rewrites config σ.world.pages 0 (d.head config).header.writerEpoch
          (InTree config σ.world.pages (d.head config)) (sectionRefs m.head.sections) [] := .same fun r hr => by
        rw [(takeover_ok ht).1.eq] at hr
        exact ⟨_, .root hr⟩
      obtain ⟨_, hold⟩ | hnone := hsame.old_or_new hi (Grows.refl _) hr
      · exact ih hd hold
      · cases hnone
    | append ha _ hs => exact hrewriting (.inl ⟨_, ha⟩) hs
    | retention he _ _ hs => exact hrewriting (.inr ⟨_, _, he, fun heq => UInt64.lt_irrefl _ (heq ▸ hlater)⟩) hs

end

section
open Sample
set_option maxRecDepth 20000

/-- With leaves of one segment the append seals a page, before another writer takes over. -/
def Sample.sealing : State := letI := hashes
  State.empty.play config (opens first ++ [(first, .call (.append (segment 0)))] ++
    serve first 3 ++ [(first, .finish)] ++ opens second)

theorem Sample.reaches_sealing : letI := hashes; Reaches config sealing :=
  letI := hashes
  (Reaches.start _).play _

theorem Sample.sealing_heads : letI := hashes
    ∃ b c, sealing.world.log[1]? = some b ∧ sealing.world.log[2]? = some c ∧
      (b.head config).header.nextLSN = 3 ∧ (c.head config).header.oldestLSN = 0 ∧
      ∃ r, sectionRefs (c.head config).sections = [r] := by
  let _ := hashes
  have hmap : sealing.world.log.map (fun c => ((c.head config).header.oldestLSN,
      (c.head config).header.nextLSN, (sectionRefs (c.head config).sections).length)) =
      [(0, 0, 0), (0, 3, 1), (0, 3, 1)] := by decide +kernel
  obtain ⟨a, _, hlog, _, hrest⟩ := List.map_eq_cons_iff.1 hmap
  obtain ⟨b, _, rfl, hb, hrest⟩ := List.map_eq_cons_iff.1 hrest
  obtain ⟨c, _, rfl, hc, _⟩ := List.map_eq_cons_iff.1 hrest
  rw [Prod.mk.injEq, Prod.mk.injEq] at hb hc
  exact ⟨b, c, by rw [hlog]; rfl, by rw [hlog]; rfl, hb.2.1, hc.1, List.length_eq_one_iff.1 hc.2.2⟩

theorem heads_share_one_log_sealing : letI := hashes
    ∃ b c l l' new dropped, sealing.world.log[1]? = some b ∧ sealing.world.log[2]? = some c ∧
      Between config sealing.world 1 2 (b.head config) (c.head config) l l' new dropped := by
  let _ := hashes
  obtain ⟨b, c, hb, hc, _⟩ := sealing_heads
  obtain ⟨l, l', new, dropped, _, h⟩ := heads_share_one_log reaches_sealing (by decide) hb hc
  exact ⟨b, c, l, l', new, dropped, hb, hc, h⟩

theorem snapshots_agree_sealing : letI := hashes
    ∃ b c segment, sealing.world.log[1]? = some b ∧ sealing.world.log[2]? = some c ∧
      eval sealing.world.pages (findSegment config (b.head config) 1) = .ok (some segment) ∧
      eval sealing.world.pages (findSegment config (c.head config) 1) = .ok (some segment) := by
  let _ := hashes
  obtain ⟨b, c, hb, hc, hnext, hold, _⟩ := sealing_heads
  obtain ⟨segment, h⟩ := snapshots_agree reaches_sealing (by decide) hb hc (x := 1) (by rw [hold]; decide)
    (by rw [hnext]; decide)
  exact ⟨b, c, segment, hb, hc, h⟩

theorem acknowledged_segments_are_found_sealing : letI := hashes
    ∃ c, sealing.world.log[2]? = some c ∧
      eval sealing.world.pages (findSegment config (c.head config) 1) = .ok (some (segment 0)) := by
  let _ := hashes
  obtain ⟨r, hr, hp⟩ := of_shows (σ := sealing) (i := first)
    (p := fun r w => decide (r.call = .append (segment 0) ∧ w.log.length = 3) && isAppended r.reply) (by decide +kernel)
  rw [Bool.and_eq_true, decide_eq_true_eq] at hp
  obtain ⟨state, hreply⟩ := appended_of hp.2
  obtain ⟨k, hk, hfound⟩ := acknowledged_segments_are_found reaches_sealing hr hp.1.1 hreply
  obtain ⟨_, c, _, hc, _, hold, _⟩ := sealing_heads
  rw [hp.1.2] at hk
  exact ⟨c, hc, hfound 2 c 1 (by omega) hc (by rw [hold]; decide) (by decide) (by decide)⟩

theorem unreachable_pages_stay_unreachable_sealing : letI := hashes
    ∃ (b c : Commit) (r : IndexEntry), sealing.world.log[1]? = some b ∧ sectionRefs (c.head config).sections = [r] ∧
      (InTree config sealing.world.pages (b.head config) r ∨
        (b.head config).header.generation < r.generation) := by
  let _ := hashes
  obtain ⟨b, c, hb, hc, _, _, r, hr⟩ := sealing_heads
  exact ⟨b, c, r, hb, hr, unreachable_pages_stay_unreachable reaches_sealing (by decide) hb hc
    (.root (by rw [hr]; exact List.mem_cons_self))⟩

end

end ObjLog.Catengine
