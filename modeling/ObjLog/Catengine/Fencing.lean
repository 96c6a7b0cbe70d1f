import ObjLog.Catengine.Schedule
/-!
# One history, one writer at a time

Whatever the processes do, the durable heads form one chain of mutations, and a
session that has lost the fence adds nothing to it.
-/

namespace ObjLog.Catengine

open Lib Catformat Pmeta Blobstore

section
variable [Hashes] {config : Config} {σ : State}

/-- Two openers never acquire the same epoch. -/
theorem Linear.opener_unique {w : World} {n k : Nat} {b c : Commit} {i j : Pid} (h : Linear config w)
    (hb : w.log[n]? = some b) (hbi : b.author = .opener i) (hc : w.log[k]? = some c) (hcj : c.author = .opener j)
    (he : (b.head config).header.writerEpoch = (c.head config).header.writerEpoch) : i = j := by
  rcases Nat.lt_trichotomy n k with hlt | rfl | hlt
  · exact absurd (h.opener_epoch hlt hb hc hcj) (by rw [he]; exact UInt64.lt_irrefl _)
  · obtain rfl := Option.mem_unique hb hc
    exact Author.opener.inj (hbi.symm.trans hcj)
  · exact absurd (h.opener_epoch hlt hc hb hbi) (by rw [he]; exact UInt64.lt_irrefl _)

/-- Each durable head is one mutation of the one before it, and no position ever goes back. An epoch has at most one
session, and a session below the epoch of a durable head commits nothing after it. -/
theorem single_history (h : Reaches config σ) :
    (∀ (n : Nat) b c, σ.world.log[n]? = some b → σ.world.log[n + 1]? = some c →
      ∃ m, Mutates config σ.world.pages c.author (b.head config) m ∧ m.head = c.head config ∧ m.headBody = c.body) ∧
    (∀ (n k : Nat) b c, n < k → σ.world.log[n]? = some b → σ.world.log[k]? = some c →
      (b.head config).header.generation < (c.head config).header.generation ∧
      Progress (b.head config) (c.head config)) ∧
    (∀ i j s t, (σ.procs i).session = some s → (σ.procs j).session = some t → s.writerEpoch = t.writerEpoch → i = j) ∧
    ∀ (n k : Nat) b c pid epoch, n < k → σ.world.log[n]? = some b → σ.world.log[k]? = some c →
      c.author = .session pid epoch → (b.head config).header.writerEpoch ≤ epoch := by
  have hl := h.ok.1
  refine ⟨fun n b c hb hc => hl.step hb hc, fun n k b c hnk hb hc => ?_, fun i j s t hs ht he => ?_,
    fun n k b c pid epoch hnk hb hc ha => ?_⟩
  · exact ⟨hl.generation_lt hnk hb hc, hl.progress (Nat.le_of_lt hnk) hb hc⟩
  · obtain ⟨_, _, _, hi⟩ := h.called hs
    obtain ⟨_, _, _, hj⟩ := h.called ht
    obtain ⟨n, b, hb, hbi, hbe⟩ := hi.acquired
    obtain ⟨k, c, hc, hcj, hce⟩ := hj.acquired
    exact hl.opener_unique hb hbi hc hcj (by rw [hbe, hce, he])
  · -- a session commits under its own epoch, and epochs do not fall
    rw [← (hl.session_epoch hc ha).1]
    exact (hl.progress (Nat.le_of_lt hnk) hb hc).writerEpoch

end

/-- The first writer appends a segment, the second takes the fence over. -/
def Sample.contended : State :=
  Sample.run (Sample.opens Sample.first ++ [(Sample.first, .call (.append (Sample.segment 0)))] ++
    Sample.serve Sample.first 2 ++ [(Sample.first, .finish)] ++ Sample.opens Sample.second)

set_option maxRecDepth 20000 in
theorem single_history_contended : letI := Sample.hashes
    ∃ b c d : Commit, Sample.contended.world.log = [b, c, d] ∧
      (b.head Sample.wide).header.writerEpoch ≤ (d.head Sample.wide).header.writerEpoch ∧
      ∃ m, Mutates Sample.wide Sample.contended.world.pages (.session Sample.first 1) (b.head Sample.wide) m ∧
        m.head = c.head Sample.wide := by
  let _ := Sample.hashes
  have hreach : Reaches Sample.wide Sample.contended := Sample.reaches_run _
  obtain ⟨hchain, hprogress, _⟩ := single_history hreach
  obtain ⟨b, c, d, hlog⟩ : ∃ b c d, Sample.contended.world.log = [b, c, d] :=
    List.length_eq_three.1 (by decide +kernel)
  have hauthor : Sample.contended.world.log.map (·.author) =
      [.opener Sample.first, .session Sample.first 1, .opener Sample.second] := by decide +kernel
  rw [hlog] at hchain hprogress hauthor
  obtain ⟨m, hm, hhead, _⟩ := hchain 0 b c rfl rfl
  simp only [List.map_cons, List.map_nil, List.cons.injEq] at hauthor
  rw [hauthor.2.1] at hm
  exact ⟨b, c, d, hlog, (hprogress 0 2 b d (by decide) rfl rfl).2.writerEpoch, m, hm, hhead⟩

end ObjLog.Catengine
