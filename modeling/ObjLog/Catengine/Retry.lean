import ObjLog.Catengine.History
/-!
# Retrying a retention

A retry carries the same boundary and version. The head records the boundary
cut off at its `NextLSN`, and the retry is recognised by comparing the two, so a
boundary beyond the history is not recognised again.
-/

namespace ObjLog.Catengine

open Lib Catformat Pmeta Blobstore

variable {before version : UInt64}

section
variable [Hashes] {config : Config} {pages pages' : Pages} {head head' : Head}

/-- Any number of takeovers. -/
inductive Takeovers (config : Config) : Head → Head → Prop
  | refl {head : Head} : Takeovers config head head
  | step {head next : Head} {writerID : Arr 16} {m : Mutation} : Takeovers config head next →
      takeover config next writerID = .ok m → Takeovers config head m.head

/-- What takeovers leave alone. -/
theorem Takeovers.keep (h : Takeovers config head head') {body : Bytes} (hm : marshalHead head = .ok body)
    (hc : validateConfigHead config head = .ok ()) :
    head'.header.appliedRetentionLSN = head.header.appliedRetentionLSN ∧
      head'.header.appliedRetentionVersion = head.header.appliedRetentionVersion ∧
      validateConfigHead config head' = .ok () ∧ ∃ body', marshalHead head' = .ok body' := by
  induction h with
  | refl => exact ⟨rfl, rfl, hc, body, hm⟩
  | @step next writerID m _ ht ih =>
    obtain ⟨hl, hv, hc', _⟩ := ih
    obtain ⟨htake, _, hm', _⟩ := takeover_ok ht
    refine ⟨?_, ?_, ?_, _, hm'⟩
    · rw [htake.eq]
      exact hl
    · rw [htake.eq]
      exact hv
    · rw [htake.eq]
      exact validateConfigHead_ok.2 (validateConfigHead_ok.1 hc')

/-- A policy of the version a head has already applied is accepted only with the boundary it recorded. -/
theorem applyRetention_again {body : Bytes} (hm : marshalHead head = .ok body)
    (hc : validateConfigHead config head = .ok ()) (hpos : version ≠ 0)
    (hv : head.header.appliedRetentionVersion = version) : eval pages (applyRetention config head before version) =
      if before = head.header.appliedRetentionLSN then .ok ⟨head, body, []⟩
      else .error (.of .retentionRegression
        s!"policy_version={version} applied={head.header.appliedRetentionVersion}") := by
  simp only [applyRetention, reads_ok, hc, failIf, hpos, if_false, hv, true_and]
  split
  · simp only [reads_ok, hm]
    rfl
  · simp only [reads_ok, UInt64.le_refl, if_true]
    rfl

theorem applyRetention_checks {m : Mutation} (h : eval pages (applyRetention config head before version) = .ok m) :
    validateConfigHead config head = .ok () ∧ version ≠ 0 := by
  simp only [applyRetention, reads_ok, checks_ok] at h
  exact ⟨h.2.1, h.2.2.1⟩

/-- What a head records of a policy it accepted: its version, and its boundary where the history reaches it. -/
theorem applyRetention_records {l : List LeafEntry} {m : Mutation}
    (hi : Inv config pages head l) (h : eval pages (applyRetention config head before version) = .ok m)
    (hg : Grows pages pages') (hs : Stored pages' m.pages) : m.head.header.appliedRetentionVersion = version ∧
      (before = m.head.header.appliedRetentionLSN ↔ before ≤ head.header.nextLSN) := by
  obtain ⟨hc, hpos⟩ := applyRetention_checks h
  obtain ⟨hm, ⟨hsame, hver, _⟩ | ⟨happ, _⟩⟩ := applyRetention_spec hi h hg hs
  · rw [hsame] at hm ⊢
    refine ⟨hver.symm, ?_⟩
    rw [applyRetention_again hm hc hpos hver.symm] at h
    split at h
    · rename_i hbefore
      rw [hbefore]
      exact ⟨fun _ => hi.valid.header.retention, fun _ => rfl⟩
    · cases h
  · have hrecorded : m.head.header.appliedRetentionLSN = retentionTarget head before := by rw [happ.header]
    refine ⟨by rw [happ.header], ?_⟩
    rw [hrecorded, retentionTarget]
    split
    · rename_i hgt
      refine ⟨fun heq => ?_, fun hle => absurd hgt (UInt64.not_lt.2 hle)⟩
      rw [← heq] at hgt
      exact absurd hgt (UInt64.lt_irrefl _)
    · exact ⟨fun _ => UInt64.not_lt.1 ‹_›, fun _ => rfl⟩

/-- Applying a retention again, after any takeovers, changes nothing exactly if the boundary was not beyond the
history it was applied to. -/
theorem retention_retry {m : Mutation} {before version : UInt64} (h : Reachable config pages head)
    (hr : eval pages (applyRetention config head before version) = .ok m) (hg : Grows pages pages')
    (hs : Stored pages' m.pages) (ht : Takeovers config m.head head') :
    (∃ again, eval pages' (applyRetention config head' before version) = .ok again ∧ again.head = head' ∧
      again.pages = []) ↔ before ≤ head.header.nextLSN := by
  obtain ⟨l, hi⟩ := h.inv
  obtain ⟨k, hk, _⟩ := applyRetention_inv hi hr hg hs
  obtain ⟨hm, _⟩ := applyRetention_spec hi hr hg hs
  obtain ⟨hver, hiff⟩ := applyRetention_records hi hr hg hs
  obtain ⟨hl, hv, hc', body, hm'⟩ := ht.keep hm hk.identity
  rw [← hiff, ← hl, applyRetention_again hm' hc' (applyRetention_checks hr).2 (hv.trans hver)]
  constructor
  · rintro ⟨again, hagain, _⟩
    split at hagain
    · assumption
    · cases hagain
  · intro hbefore
    rw [if_pos hbefore]
    exact ⟨_, rfl, rfl, rfl⟩

end

section
set_option maxRecDepth 20000

/-- The cut of the sample at 14, again after a takeover. -/
theorem retention_retry_cut : letI := Sample.hashes
    ∃ m again, takeover Sample.config Sample.cut.head Sample.id16 = .ok m ∧
      eval Sample.cutStore (applyRetention Sample.config m.head 14 1) = .ok again ∧ again.head = m.head := by
  let _ := Sample.hashes
  have hvalues : Sample.isOk (takeover Sample.config Sample.cut.head Sample.id16) = true ∧
      14 ≤ Sample.two.head.header.nextLSN := by decide +kernel
  have ht : takeover Sample.config Sample.cut.head Sample.id16 =
      .ok (Sample.value Sample.noMutation (takeover Sample.config Sample.cut.head Sample.id16)) :=
    Sample.eq_ok _ hvalues.1
  obtain ⟨again, hok, hhead, _⟩ := (retention_retry Sample.reachable_two Sample.cut_ok
    (Sample.pagesOf_grows (Sample.one.pages ++ Sample.two.pages) Sample.cut.pages) Sample.stored_cut
    (.step .refl ht)).2 hvalues.2
  exact ⟨_, again, ht, hok, hhead⟩

/-- The sample cut beyond its end. -/
def Sample.beyond : Mutation :=
  letI := hashes
  value noMutation (eval store (applyRetention config two.head 20 1))

/-- The sample history ends before 16. Cutting it at 20 succeeds and records 16; the same request is then refused. -/
theorem retention_retry_beyond : letI := Sample.hashes
    ∃ m, Reachable Sample.config Sample.store Sample.two.head ∧
      eval Sample.store (applyRetention Sample.config Sample.two.head 20 1) = .ok m ∧ m.pages = [] ∧
      m.head.header.appliedRetentionLSN = 16 ∧
      ∃ e, eval Sample.store (applyRetention Sample.config m.head 20 1) = .error e ∧ e.is .retentionRegression := by
  let _ := Sample.hashes
  have hvalues : Sample.isOk (eval Sample.store (applyRetention Sample.config Sample.two.head 20 1)) = true ∧
      Sample.beyond.pages = [] ∧ Sample.beyond.head.header.appliedRetentionLSN = 16 ∧
      Sample.beyond.head.header.appliedRetentionVersion = 1 := by decide +kernel
  obtain ⟨hok, hpages, hlsn, hversion⟩ := hvalues
  have hm : eval Sample.store (applyRetention Sample.config Sample.two.head 20 1) = .ok Sample.beyond :=
    Sample.eq_ok _ hok
  refine ⟨_, Sample.reachable_two, hm, hpages, hlsn, ?_⟩
  obtain ⟨l, hi⟩ := Sample.reachable_two.inv
  have hs : Stored Sample.store Sample.beyond.pages := by simp [hpages, Stored]
  obtain ⟨k, hk, _⟩ := applyRetention_inv hi hm (Grows.refl _) hs
  obtain ⟨hbody, _⟩ := applyRetention_spec hi hm (Grows.refl _) hs
  rw [applyRetention_again hbody hk.identity (by decide) hversion, if_neg (by rw [hlsn]; decide)]
  exact ⟨_, rfl, rfl⟩

end

end ObjLog.Catengine
