import ObjLog.Catengine.Schedule
/-!
# What `AppendSegment` may be believed

An acknowledged segment is in the log once, and the state returned is that of a
head of the session's own epoch that ended with it. An error that leaves no
doubt means that no durable head holds the segment, unless a confirming read
failed, retention has already passed the segment, or the call also finished a
retention and the segment was durable before.
-/

namespace ObjLog.Catengine

open Lib Catformat Pmeta Blobstore

section
variable [Hashes] {config : Config} {σ : State} {i : Pid} {r : Record} {segment : SegmentRef}

/-- The segment of an acknowledgement was appended. -/
theorem Acknowledges.appended {w : World} {epoch : UInt64} {state : PartitionHead} (hl : Linear config w)
    (h : Acknowledges config w epoch segment state) : ∃ k, AppendedAt config w k (Config.entryOf segment) := by
  obtain ⟨n, c, hc, _, _, hflag, rfl⟩ := h
  obtain ⟨l, howes⟩ := hl.history hc
  obtain ⟨k, _, ha⟩ := howes.last hflag
  exact ⟨k, ha⟩

theorem append_acknowledged {state : PartitionHead} (h : Reaches config σ) (hr : r ∈ (σ.procs i).done)
    (hcall : r.call = .append segment) (hreply : r.reply = .ok (.appended state)) :
    (∃! k, AppendedAt config σ.world k (Config.entryOf segment)) ∧
    (∃ (n : Nat) (c : Commit), σ.world.log[n]? = some c ∧ config.publicState (c.head config) = state ∧
      (c.head config).header.writerEpoch = r.before.writerEpoch ∧ (c.head config).hasLastSegment = true ∧
      config.segmentRef (c.head config).lastSegment = segment) ∧
    ∀ r' ∈ (σ.procs i).done, r'.before.writerEpoch = r.before.writerEpoch := by
  have hl := h.ok.1
  obtain ⟨⟨_, htold⟩, _⟩ := h.told hr
  rw [hcall, hreply] at htold
  have hack : Acknowledges config σ.world r.before.writerEpoch segment state := htold.2
  obtain ⟨k, ha⟩ := hack.appended hl
  obtain ⟨s, hs⟩ := Mode.session_of_done hr
  obtain ⟨_, _, _, hcalled⟩ := h.called hs
  obtain ⟨_, hepoch⟩ := hcalled.serves.epoch
  refine ⟨⟨k, ha, fun j hj => hj.unique hl ha⟩, hack, fun r' hr' => ?_⟩
  rw [hepoch r' hr', hepoch r hr]

theorem append_refused {e : Err} (h : Reaches config σ) (hr : r ∈ (σ.procs i).done) (hcall : r.call = .append segment)
    (hreply : r.reply = .error e) (hdet : Determinate e) (hactive : r.before.stale = false) (hcas : r.cas = true)
    (hread : r.failed = false)
    (hkept : ∀ (n : Nat) c, n < r.stop → σ.world.log[n]? = some c → (c.head config).header.oldestLSN ≤ segment.baseLSN)
    (hpend : r.before.Settled ∨ (segment.writerEpoch = r.before.writerEpoch ∧
      ∀ k, k + 1 < r.start → ¬ AppendedAt config σ.world k (Config.entryOf segment))) :
    ∀ (n : Nat) c l, n < r.stop → σ.world.log[n]? = some c → flat config σ.world.pages (c.head config) = .ok l →
      Config.entryOf segment ∉ l := by
  intro n c l hn hc hflat hmem
  obtain ⟨⟨_, htold⟩, _⟩ := h.told hr
  rw [hcall, hreply] at htold
  have hno : Unappended config σ.world r segment e := htold.2
  obtain ⟨l', howes⟩ := h.ok.1.history hc
  obtain rfl : l = l' := Except.ok.inj (hflat.symm.trans howes.contents)
  obtain ⟨k, hk, ha⟩ := howes.appended _ hmem
  exact hno hdet hcas hread hkept hpend k (Nat.lt_of_le_of_lt (Nat.succ_le_of_lt hk) hn) ha

end

/-! ## Runs -/

namespace Sample

def appending : List (Pid × Event) := opens first ++ [(first, .call (.append (segment 0))), (first, .op .served)]

/-- The swap takes effect, its answer is lost, and the repeated swap finds the segment in the head. -/
def confirmed : State := run (appending ++ [(first, .op .lost)] ++ serve first 3 ++ [(first, .finish)])

/-- No swap reaches the store, and the head is read once more. -/
def rejected : State :=
  run (appending ++ [(first, .op .refused), (first, .op .served), (first, .op .refused)] ++ serve first 2 ++
    [(first, .finish)])

/-- The swap takes effect and its answer is lost. Before it is repeated, another writer takes over and applies a
retention that removes the segment. -/
def trimmed : State :=
  run (appending ++ [(first, .op .lost)] ++ opens second ++
    [(second, .call (.applyPending ⟨1, 1, 3, 0⟩ true))] ++ serve second 4 ++ [(second, .finish)] ++ serve first 3 ++
    [(first, .finish)])

def isAppended : Except Err Reply → Bool
  | .ok (.appended _) => true
  | _ => false

theorem appended_of {reply : Except Err Reply} (h : isAppended reply = true) : ∃ state, reply = .ok (.appended state) := by
  unfold isAppended at h
  split at h
  · exact ⟨_, rfl⟩
  · cases h

/-- An error that leaves no doubt about the outcome. -/
def isRefusal : Except Err Reply → Bool
  | .error e => !e.is .commitIndeterminate
  | _ => false

theorem refusal_of {reply : Except Err Reply} (h : isRefusal reply = true) : ∃ e, reply = .error e ∧ Determinate e := by
  unfold isRefusal at h
  split at h
  · exact ⟨_, rfl, by simpa [Determinate] using h⟩
  · cases h

end Sample

section
set_option maxRecDepth 20000

theorem append_acknowledged_confirmed : letI := Sample.hashes
    ∃! k, AppendedAt Sample.wide Sample.confirmed.world k (Config.entryOf (Sample.segment 0)) := by
  let _ := Sample.hashes
  have hreach : Reaches Sample.wide Sample.confirmed := Sample.reaches_run _
  obtain ⟨r, hr, hp⟩ := Sample.of_shows (σ := Sample.confirmed) (i := Sample.first)
    (p := fun r _ => decide (r.call = .append (Sample.segment 0)) && Sample.isAppended r.reply) (by decide +kernel)
  rw [Bool.and_eq_true, decide_eq_true_eq] at hp
  obtain ⟨state, hreply⟩ := Sample.appended_of hp.2
  exact (append_acknowledged hreach hr hp.1 hreply).1

theorem append_refused_rejected : letI := Sample.hashes
    ∃ (b : Commit) (l : List LeafEntry), Sample.rejected.world.log[0]? = some b ∧
      flat Sample.wide Sample.rejected.world.pages (b.head Sample.wide) = .ok l ∧
      Config.entryOf (Sample.segment 0) ∉ l := by
  let _ := Sample.hashes
  have hreach : Reaches Sample.wide Sample.rejected := Sample.reaches_run _
  obtain ⟨r, hr, hp⟩ := Sample.of_shows (σ := Sample.rejected) (i := Sample.first)
    (p := fun r w => decide (r.call = .append (Sample.segment 0) ∧ r.before.stale = false ∧ r.cas = true ∧
      r.failed = false ∧ r.before.pendingRetention = none ∧ r.stop = 1 ∧ w.log.length = 1 ∧
      ∀ c ∈ w.log, (c.head Sample.wide).header.oldestLSN ≤ 0) && Sample.isRefusal r.reply) (by decide +kernel)
  rw [Bool.and_eq_true, decide_eq_true_eq] at hp
  obtain ⟨⟨hcall, hactive, hcas, hread, hpend, hstop, hlen, hold⟩, hrefusal⟩ := hp
  obtain ⟨e, hreply, hdet⟩ := Sample.refusal_of hrefusal
  obtain ⟨b, hlog⟩ := List.length_eq_one_iff.1 hlen
  have hb : Sample.rejected.world.log[0]? = some b := by rw [hlog]; rfl
  obtain ⟨l, howes⟩ := hreach.ok.1.history hb
  refine ⟨b, l, hb, howes.contents, append_refused hreach hr hcall hreply hdet hactive hcas hread
    (fun n c _ hc => hold c (List.mem_of_getElem? hc)) (.inl fun p hp => ?_) 0 b l (by rw [hstop]; decide) hb
    howes.contents⟩
  rw [hpend] at hp
  cases hp

/-- The first writer is told that it is stale. Its swap was durable, as the head that holds the segment shows. -/
theorem append_refused_trimmed : letI := Sample.hashes
    Reaches Sample.wide Sample.trimmed ∧ ∃ r ∈ (Sample.trimmed.procs Sample.first).done,
      r.call = .append (Sample.segment 0) ∧ r.before.stale = false ∧ r.cas = true ∧ r.failed = false ∧
      (∃ e, r.reply = .error e ∧ Determinate e) ∧
      ∃ c, Sample.trimmed.world.log[1]? = some c ∧ 1 < r.stop ∧
        flat Sample.wide Sample.trimmed.world.pages (c.head Sample.wide) = .ok [Config.entryOf (Sample.segment 0)] := by
  let _ := Sample.hashes
  refine ⟨Sample.reaches_run _, ?_⟩
  obtain ⟨r, hr, hp⟩ := Sample.of_shows (σ := Sample.trimmed) (i := Sample.first)
    (p := fun r w => decide (r.call = .append (Sample.segment 0) ∧ r.before.stale = false ∧ r.cas = true ∧
      r.failed = false ∧ 1 < r.stop ∧ (w.log[1]?).map (fun c => flat Sample.wide w.pages (c.head Sample.wide)) =
        some (.ok [Config.entryOf (Sample.segment 0)])) && Sample.isRefusal r.reply) (by decide +kernel)
  rw [Bool.and_eq_true, decide_eq_true_eq] at hp
  obtain ⟨⟨hcall, hactive, hcas, hread, hstop, hmap⟩, hrefusal⟩ := hp
  obtain ⟨c, hc, hflat⟩ := Option.map_eq_some_iff.1 hmap
  exact ⟨r, hr, hcall, hactive, hcas, hread, Sample.refusal_of hrefusal, c, hc, hstop, hflat⟩

end

end ObjLog.Catengine
