import ObjLog.Catengine.Sessions
/-!
# What a session tells its callers

`AppendSegment`, `ApplyPendingRetention` and `ReconcilePendingRetention` as calls
on one session. A `Record` keeps a finished call with the sessions before and
after it and the part of the log it fell into; `Told` is what its answer means
for the log. `Call.run_spec`: every call keeps the session's invariant, and its
answer is `Told`, whatever the store and the other processes do.
-/

namespace ObjLog.Catengine

open Lib Env Catformat Pmeta Blobstore

variable {r : Record} {allow : Head → Head → Prop} {head : Head}

inductive Call where
  | append (segment : SegmentRef)
  | applyPending (request : RetentionRequest) (found : Bool)
  | reconcile
deriving DecidableEq

inductive Reply where
  | appended (state : PartitionHead)
  | applied (result : RetentionApplyResult)
  | reconciled (result : RetentionApplyResult) (found : Bool)
deriving DecidableEq

/-- A finished call. `start` and `stop` are the numbers of versions when it began and when it returned; `cas`
and `failed` say whether it swapped the head and whether a page read or context check failed. -/
structure Record where
  call : Call
  before : Session
  start : Nat
  reply : Except Err Reply
  after : Session
  stop : Nat
  cas : Bool
  failed : Bool

variable [Hashes] {config : Config} {i : Pid} {n t : Nat} {c : Commit} {w w' : World} {s s' : Session}
  {m : Mutation} {p : RetentionCommit} {epoch : UInt64} {segment : SegmentRef} {request : RetentionRequest}

def Call.run (config : Config) (opts : EngineOptions) : Call → SessionM Reply
  | .append segment => do
    let state ← appendSegment config opts segment
    pure (.appended state)
  | .applyPending request found => do
    let result ← applyPendingRetention config opts request found
    pure (.applied result)
  | .reconcile => do
    let (result, found) ← reconcilePendingRetention config opts
    pure (.reconciled result found)

/-! ## The meaning of the answers -/

/-- `state` is the public state of a head that was durable. -/
def Durable (config : Config) (w : World) (state : PartitionHead) : Prop :=
  ∃ (n : Nat) (c : Commit), w.log[n]? = some c ∧ config.publicState (c.head config) = state

/-- The session of process `i` made one of the first `stop` heads, and it applies the request. -/
def Enacted (config : Config) (w : World) (i : Pid) (stop : Nat) (epoch : UInt64) (request : RetentionRequest) : Prop :=
  ∃ (n : Nat) (b c : Commit) (m : Mutation), n + 1 < stop ∧ w.log[n]? = some b ∧ w.log[n + 1]? = some c ∧
    c.author = .session i epoch ∧
    eval w.pages (applyRetention config (b.head config) request.beforeLSN request.policyVersion) = .ok m ∧
    m.headBody = c.body ∧ (b.head config).header.appliedRetentionVersion < request.policyVersion

/-- Another process made one of the first `stop` heads, and its policy and oldest LSN have passed the request and
the state. -/
def Covered (config : Config) (w : World) (i : Pid) (stop : Nat) (request : RetentionRequest) (state : PartitionHead) : Prop :=
  ∃ (n : Nat) (c : Commit), n < stop ∧ w.log[n]? = some c ∧ c.author.pid ≠ i ∧
    request.policyVersion ≤ (c.head config).header.appliedRetentionVersion ∧
    state.oldestLSN ≤ (c.head config).header.oldestLSN

/-- A version no older than the call's first had not reached the request's policy. -/
def Newer (config : Config) (w : World) (start : Nat) (request : RetentionRequest) : Prop :=
  ∃ (n : Nat) (c : Commit), start ≤ n + 1 ∧ w.log[n]? = some c ∧
    (c.head config).header.appliedRetentionVersion < request.policyVersion

/-- The outstanding retention is still there; its outcome may have become known. -/
def Carried (s s' : Session) : Prop :=
  (s.pendingRetention = none → s'.pendingRetention = none) ∧
    ∀ p, s.pendingRetention = some p → ∃ b, s'.pendingRetention = some { p with resolved := b }

/-- The outstanding retention is acknowledged. -/
structure Settles (config : Config) (i : Pid) (w : World) (r : Record) (p : RetentionCommit)
    (result : RetentionApplyResult) : Prop where
  request : result.request = p.request
  applied : result.applied = true
  after : r.after.pendingRetention = none
  durable : Durable config w result.head
  enacted : Enacted config w i r.stop r.before.writerEpoch p.request

/-- An append that failed is not in the log, under the conditions the caller can rely on. -/
def Unappended (config : Config) (w : World) (r : Record) (segment : SegmentRef) (e : Err) : Prop :=
  Determinate e → r.cas = true → r.failed = false →
    (∀ (n : Nat) c, n < r.stop → w.log[n]? = some c → (c.head config).header.oldestLSN ≤ segment.baseLSN) →
    (r.before.Settled ∨ (segment.writerEpoch = r.before.writerEpoch ∧
      ∀ k, k + 1 < r.start → ¬ AppendedAt config w k (Config.entryOf segment))) →
    ∀ k, k + 1 < r.stop → ¬ AppendedAt config w k (Config.entryOf segment)

/-- What the answer of a call says about the log `w`. -/
def Told (config : Config) (i : Pid) (w : World) (r : Record) : Prop :=
  r.after.writerEpoch = r.before.writerEpoch ∧
  match r.call, r.reply with
  | .append segment, .ok (.appended state) =>
    Carried r.before r.after ∧ Acknowledges config w r.before.writerEpoch segment state
  | .append segment, .error e => Carried r.before r.after ∧ Unappended config w r segment e
  | .applyPending request _, .ok (.applied result) =>
    match r.before.pendingRetention with
    | some p => Settles config i w r p result
    | none => r.after.pendingRetention = none ∧ (result.applied = true → result.request = request ∧
        Newer config w r.start request ∧
        ((Durable config w result.head ∧ Enacted config w i r.stop r.before.writerEpoch request) ∨
          Covered config w i r.stop request result.head))
  | .applyPending request _, .error e =>
    match r.before.pendingRetention with
    | some p => r.after.pendingRetention = some p
    | none => (Determinate e → r.after.pendingRetention = none) ∧
        (¬ Determinate e → ∃ p, r.after.pendingRetention = some p ∧ p.request = request ∧
          Newer config w r.start request)
  | .reconcile, .ok (.reconciled result found) =>
    match r.before.pendingRetention with
    | some p => found = true ∧ Settles config i w r p result
    | none => found = false ∧ result.applied = false ∧ r.after.pendingRetention = none
  | .reconcile, .error _ => r.after.pendingRetention = r.before.pendingRetention
  | _, _ => False

/-! ## Later worlds -/

section
variable (ho : Onward config w w')
include ho

theorem Durable.onward {state : PartitionHead} (h : Durable config w state) : Durable config w' state := by
  obtain ⟨n, c, hc, hs⟩ := h
  exact ⟨n, c, ho.kept n c hc, hs⟩

theorem Enacted.onward {stop stop' : Nat} (h : Enacted config w i stop epoch request) (hle : stop ≤ stop') :
    Enacted config w' i stop' epoch request := by
  obtain ⟨n, b, c, m, hn, hb, hc, ha, he, hrest⟩ := h
  exact ⟨n, b, c, m, Nat.lt_of_lt_of_le hn hle, ho.kept n b hb, ho.kept _ c hc, ha, (reader_applyRetention _ _ _).eval_mono ho.pages he, hrest⟩

theorem Covered.onward {stop stop' : Nat} {state : PartitionHead} (h : Covered config w i stop request state)
    (hle : stop ≤ stop') : Covered config w' i stop' request state := by
  obtain ⟨n, c, hn, hc, hrest⟩ := h
  exact ⟨n, c, Nat.lt_of_lt_of_le hn hle, ho.kept n c hc, hrest⟩

theorem Newer.onward {start : Nat} (h : Newer config w start request) : Newer config w' start request := by
  obtain ⟨n, c, hn, hc, hrest⟩ := h
  exact ⟨n, c, hn, ho.kept n c hc, hrest⟩

theorem Settles.onward {result : RetentionApplyResult} (h : Settles config i w r p result) :
    Settles config i w' r p result :=
  ⟨h.request, h.applied, h.after, h.durable.onward ho, h.enacted.onward ho (Nat.le_refl _)⟩

theorem Onward.length : w.log.length ≤ w'.log.length := by
  by_contra hlt
  have hlt := Nat.lt_of_not_le hlt
  have := ho.kept w'.log.length _ (List.getElem?_eq_getElem hlt)
  rw [List.getElem?_eq_none (Nat.le_refl _)] at this
  cases this

/-- What is in the log where it had been written before was there before. -/
theorem Onward.back {k : Nat} {d : Commit} (hk : k < w.log.length) (hd : w'.log[k]? = some d) : w.log[k]? = some d := by
  have := ho.kept k _ (List.getElem?_eq_getElem hk)
  rw [hd] at this
  rw [Option.some.inj this]
  exact List.getElem?_eq_getElem hk

theorem Onward.appendedAt_iff {k : Nat} {e : LeafEntry} (hk : k + 1 < w.log.length) :
    AppendedAt config w' k e ↔ AppendedAt config w k e := by
  constructor
  · rintro ⟨b, c, segment, m, hb, hc, hrest⟩
    exact ⟨b, c, segment, m, ho.back (Nat.lt_of_succ_lt hk) hb, ho.back hk hc, hrest⟩
  · rintro ⟨b, c, segment, m, hb, hc, hrest⟩
    exact ⟨b, c, segment, m, ho.kept _ b hb, ho.kept _ c hc, hrest⟩

theorem Unappended.onward {e : Err} (h : Unappended config w r segment e)
    (hstop : r.stop ≤ w.log.length) (hstart : r.start ≤ r.stop) : Unappended config w' r segment e := by
  intro hdet hcas hfailed hold hpend k hk
  rw [ho.appendedAt_iff (Nat.lt_of_lt_of_le hk hstop)]
  refine h hdet hcas hfailed (fun n c hn hc => hold n c hn (ho.kept n c hc)) (hpend.imp_right fun hp => ?_) k hk
  refine ⟨hp.1, fun j hj => ?_⟩
  rw [← ho.appendedAt_iff (Nat.lt_of_lt_of_le hj (Nat.le_trans hstart hstop))]
  exact hp.2 j hj

theorem Told.onward (h : Told config i w r) (hstop : r.stop ≤ w.log.length) (hstart : r.start ≤ r.stop) :
    Told config i w' r := by
  obtain ⟨hepoch, h⟩ := h
  refine ⟨hepoch, ?_⟩
  split at h
  · exact ⟨h.1, h.2.onward ho⟩
  · exact ⟨h.1, h.2.onward ho hstop hstart⟩
  · split at h
    · exact h.onward ho
    · refine ⟨h.1, fun happ => ?_⟩
      obtain ⟨hreq, hnew, hout⟩ := h.2 happ
      exact ⟨hreq, hnew.onward ho, hout.imp (fun hd => ⟨hd.1.onward ho, hd.2.onward ho (Nat.le_refl _)⟩)
        (·.onward ho (Nat.le_refl _))⟩
  · split at h
    · exact h
    · refine ⟨h.1, fun hdet => ?_⟩
      obtain ⟨p, hp, hreq, hnew⟩ := h.2 hdet
      exact ⟨p, hp, hreq, hnew.onward ho⟩
  · split at h
    · exact ⟨h.1, h.2.onward ho⟩
    · exact h
  · exact h
  · exact h

end

/-! ## Retention calls -/

/-- What the commits of a call may do to the head: before an outstanding retention is acknowledged, no other policy
is applied. -/
def Session.Allows (s : Session) (head next : Head) : Prop :=
  ∀ p, s.pendingRetention = some p → next = p.mutation.head ∨
    next.header.appliedRetentionVersion = head.header.appliedRetentionVersion

theorem Prepared.enacted (hl : Linear config w) (h : Prepared config i w epoch p t) (hland : Landed w t p.mutation) :
    Enacted config w i w.log.length epoch p.request := by
  obtain ⟨c, hc, hb⟩ := hland
  have hauthor := h.author hl hc hb
  obtain ⟨u, b, rfl, hb', hhead⟩ := h.version
  refine ⟨u, b, c, p.mutation, (List.getElem?_eq_some_iff.1 hc).1, hb', hc, hauthor, ?_, hb.symm, ?_⟩
  · rw [hhead]
    exact h.retention
  · rw [hhead]
    exact h.newer

theorem SessionOk.durable (h : SessionOk config i w s) : Durable config w (config.publicState s.head) := by
  obtain ⟨n, c, _, hc, hh⟩ := h.version
  exact ⟨n, c, hc, by rw [hh]⟩

section
variable {v v' : View} {opts : EngineOptions}

/-- Acknowledging an outstanding retention. -/
theorem acknowledgeRetentionLocked_spec (h : SessionOk config i v.world s) (hp : s.pendingRetention = some p) :
    (env config (.session i s.writerEpoch) s.Allows).wpS
      (fun r s' v' => SessionOk config i v'.world s' ∧ s'.writerEpoch = s.writerEpoch ∧
        s'.pendingRetention = none ∧ r.request = p.request ∧ r.applied = true ∧ Durable config v'.world r.head ∧
        Enacted config v'.world i v'.world.log.length s.writerEpoch p.request)
      (fun _ s' v' => SessionOk config i v'.world s' ∧ s'.writerEpoch = s.writerEpoch ∧ s'.pendingRetention = some p)
      (acknowledgeRetentionLocked config opts) s v := by
  have hallow : ∀ q, s.pendingRetention = some q → s.Allows q.previous q.mutation.head := by
    intro q hq q' hq'
    obtain rfl := Option.mem_unique hq hq'
    exact .inl rfl
  unfold acknowledgeRetentionLocked
  rw [wpS_bind]
  refine wpS_mono ?_ ?_ (resolveRetentionLocked_spec h hallow)
  · rintro _ s₁ v₁ ⟨hres, _, hpend⟩
    rw [hp, Option.map_some] at hpend
    have hepoch : s₁.writerEpoch = s.writerEpoch := by rw [hres.same]
    rw [wpS_bind]
    refine wpS_session fun v₂ hr₂ => ?_
    rw [wpS_bind]
    have hok₂ := hres.ok.rely hr₂.1
    refine wpS_ofExcept hok₂.partitionHead fun v₃ hr₃ => ?_
    have hok₃ := hok₂.rely hr₃.1
    obtain ⟨t, ho⟩ := hok₃.outstanding _ hpend
    rw [hpend]
    dsimp only
    rw [wpS_bind]
    refine wpS_modify.2 fun v₄ hr₄ v₅ hr₅ => ?_
    have hr := hr₄.1.trans hr₅.1
    have henacted := ho.prepared.enacted hok₃.linear (ho.resolved rfl)
    rw [hepoch] at henacted
    refine ⟨(hok₃.setPending fun _ hq => ?_).rely hr, hepoch, rfl, rfl, rfl, hok₃.durable.onward hr.onward,
      henacted.onward hr.onward hr.length⟩
    cases hq
  · rintro e s₁ v₁ ⟨hres, _, hpend⟩
    exact ⟨hres.ok, by rw [hres.same], by rw [hpend, hp]⟩

/-- A prepared retention that landed is told truthfully. -/
theorem Prepared.truthful (hl : Linear config w) (h : Prepared config i w epoch p t) (hland : Landed w t p.mutation) :
    Durable config w (config.publicState p.mutation.head) ∧ Enacted config w i w.log.length epoch p.request := by
  refine ⟨?_, h.enacted hl hland⟩
  obtain ⟨c, hc, hb⟩ := hland
  have henc := h.encodes hl
  rw [← hb] at henc
  exact ⟨t, c, hc, by rw [henc.commit_head]⟩

/-- A head that has reached the policy was made by another process, or is the mutation. -/
theorem Prepared.truthful_or_covered (hl : Linear config w)
    (h : Prepared config i w epoch p t) (ha : Alone i w t p.mutation) {token : Token}
    (hv : Version config w token head) (hle : t ≤ token) (happ : retentionApplied head p.mutation = true) :
    (Durable config w (config.publicState p.mutation.head) ∧ Enacted config w i w.log.length epoch p.request) ∨
      Covered config w i w.log.length p.request (config.publicState p.mutation.head) := by
  obtain ⟨n, c, rfl, hc, rfl⟩ := hv
  have hversion : p.mutation.head.header.appliedRetentionVersion = p.request.policyVersion := by
    rw [(h.applied hl).header]
  simp only [retentionApplied, decide_eq_true_eq, hversion] at happ
  by_cases hi : c.author.pid = i
  · rcases Nat.lt_or_eq_of_le hle with hlt | rfl
    · -- the session committed nothing after version `t` but the mutation
      obtain ⟨rfl, hb⟩ := ha n c (Nat.le_of_lt_succ hlt) hc hi
      exact .inl (h.truthful hl ⟨c, hc, hb⟩)
    · obtain ⟨n', b, ht, hb, hhead⟩ := h.version
      obtain rfl := Nat.succ.inj ht
      obtain rfl := Option.mem_unique hc hb
      rw [hhead] at happ
      exact absurd h.newer (UInt64.not_lt.2 happ.1)
  · exact .inr ⟨n, c, (List.getElem?_eq_some_iff.1 hc).1, hc, hi, happ.1, happ.2⟩

omit [Hashes] in
theorem ne_succ (x : UInt64) : x + 1 ≠ x := by
  intro h
  have := congrArg UInt64.toNat h
  rw [UInt64.toNat_add] at this
  have hlt := x.toNat_lt
  simp at this
  omega

theorem cutHistory_keeps {pages : Pages} {next next' : Head} {target : UInt64} {objects : List PageObject}
    (h : eval pages (cutHistory config head next target) = .ok (next', objects)) :
    next'.header.generation = next.header.generation ∧
      next'.header.appliedRetentionVersion = next.header.appliedRetentionVersion := by
  unfold cutHistory at h
  split at h
  · simp only [reads_ok] at h
    rw [h.1]
    exact ⟨rfl, rfl⟩
  split at h
  · simp only [reads_ok] at h
    obtain ⟨rfl, _⟩ := h
    exact ⟨rfl, rfl⟩
  rw [eval_bind, bind_ok] at h
  obtain ⟨found, _, h⟩ := h
  cases found with
  | none => simp at h
  | some segment =>
    dsimp only at h
    split at h
    · simp only [trimHead, reads_ok, checks_ok, Prod.exists] at h
      obtain ⟨_, _, ⟨_, _, _, _, rfl, _⟩, rfl, _⟩ := h
      exact ⟨rfl, rfl⟩
    · simp only [reads_ok] at h
      rw [h.1]
      exact ⟨rfl, rfl⟩

/-- A newer policy makes a new generation and is recorded, whether or not the pages it writes are stored. -/
theorem applyRetention_newer {pages : Pages} {before version : UInt64}
    (h : eval pages (applyRetention config head before version) = .ok m)
    (hv : head.header.appliedRetentionVersion < version) :
    m.head.header.generation ≠ head.header.generation ∧ m.head.header.appliedRetentionVersion = version ∧
      marshalHead m.head = .ok m.headBody := by
  simp only [applyRetention, reads_ok, checks_ok] at h
  obtain ⟨_, _, _, h⟩ := h
  split at h
  · rename_i hsame
    rw [hsame.1] at hv
    exact absurd hv (UInt64.lt_irrefl _)
  · simp only [reads_ok, checks_ok, Prod.exists] at h
    obtain ⟨_, _, _, next, _, hcut, _, _, _, hm, rfl⟩ := h
    obtain ⟨hgen, hver⟩ := cutHistory_keeps hcut
    refine ⟨?_, hver, hm⟩
    change next.header.generation ≠ _
    rw [hgen]
    exact ne_succ _

/-- Applying a newer policy to the head just read. -/
theorem applyRetentionLocked_spec (h : SessionOk config i v.world s)
    (hp : s.pendingRetention = none) (hactive : s.stale = false) (hu : Untouched i v.world s.token)
    (hnew : s.head.header.appliedRetentionVersion < request.policyVersion) (hallow : ∀ head next, allow head next) :
    (s.env config i allow).wpS
      (fun r s' v' => SessionOk config i v'.world s' ∧ s'.writerEpoch = s.writerEpoch ∧
        Onward config v.world v'.world ∧ s'.pendingRetention = none ∧
        ((Durable config v'.world r.1 ∧ Enacted config v'.world i v'.world.log.length s.writerEpoch request) ∨
          Covered config v'.world i v'.world.log.length request r.1))
      (fun e s' v' => SessionOk config i v'.world s' ∧ s'.writerEpoch = s.writerEpoch ∧
        Onward config v.world v'.world ∧ (Determinate e → s'.pendingRetention = none) ∧
        (¬ Determinate e → ∃ p, s'.pendingRetention = some p ∧ p.request = request))
      (applyRetentionLocked config opts request) s v := by
  -- an error before the commit leaves no record
  have hearly : ∀ {e : Err} {v' : View}, Determinate e → Rely config i v.world v'.world →
      SessionOk config i v'.world s ∧ s.writerEpoch = s.writerEpoch ∧ Onward config v.world v'.world ∧
        (Determinate e → s.pendingRetention = none) ∧
        (¬ Determinate e → ∃ p, s.pendingRetention = some p ∧ p.request = request) :=
    fun hdet hr => ⟨h.rely hr, rfl, hr.onward, fun _ => hp, fun hnot => absurd hdet hnot⟩
  unfold applyRetentionLocked
  rw [wpS_bind]
  refine wpS_session fun v₁ hr₁ => ?_
  rw [wpS_bind]
  refine wpS_of_aside (wpE_mono ?_ ?_ (wpE_reader (reader_applyRetention _ _ _) v₁))
  · rintro mutation v₂ ⟨hl₂, heval⟩
    rw [if_neg (applyRetention_newer heval hnew).1, wpS_bind]
    refine wpS_of_aside (wpE_mono ?_ ?_ (wpE_putPages mutation.pages))
    · rintro _ v₃ ⟨hl₃, hstored⟩
      have hrely₃ := hr₁.1.trans (hl₂.rely.trans hl₃.rely)
      have hok₃ := h.rely hrely₃
      have hfence := h.active hactive
      have hout : Outstanding config i v₃.world s.writerEpoch s.token ⟨request, s.head, mutation, false⟩ s.token := by
        refine ⟨⟨hok₃.version, ⟨hfence.1, hfence.2.trans h.id⟩, ?_, hnew, hstored⟩, Nat.le_refl _,
          fun hres => (by cases hres), fun _ k c hk hc hi => absurd hi (hu.rely hrely₃ k c hk hc)⟩
        exact (reader_applyRetention _ _ _).eval_mono hl₃.rely.pages heval
      rw [wpS_bind]
      refine wpS_modify.2 fun v₄ hr₄ => ?_
      have hok₄ := (hok₃.setPending fun q hq => ⟨s.token, Option.some.inj hq ▸ hout⟩).rely hr₄.1
      have honward := (hrely₃.trans hr₄.1).onward
      rw [wpS_bind]
      refine wpS_tryCatch (wpS_mono ?_ ?_ (commitRetentionLocked_spec hok₄ hactive rfl rfl (hallow _ _)))
      · rintro state s₁ v₅ ⟨rfl, hok₅, hsame, _, hafter, hsure, hle⟩
        rw [wpS_bind]
        refine wpS_modify.2 fun v₆ hr₆ v₇ hr₇ => ?_
        have hr := hr₆.1.trans hr₇.1
        have hprep := (hout.prepared.onward hr₄.1.onward).onward hafter.onward
        refine ⟨(hok₅.setPending fun _ hq => by cases hq).rely hr, by rw [hsame],
          honward.trans (hafter.onward.trans hr.onward), rfl, ?_⟩
        suffices hdone : (Durable config v₅.world (config.publicState mutation.head) ∧
            Enacted config v₅.world i v₅.world.log.length s.writerEpoch request) ∨
            Covered config v₅.world i v₅.world.log.length request (config.publicState mutation.head) from
          hdone.imp (fun hd => ⟨hd.1.onward hr.onward, hd.2.onward hr.onward hr.length⟩) (·.onward hr.onward hr.length)
        rcases hsure with hland | happ
        · exact .inl (hprep.truthful hok₅.linear hland)
        · exact hprep.truthful_or_covered hok₅.linear (((hout.unresolved rfl).rely hr₄.1).after hafter)
            hok₅.version hle happ
      · rintro e s₁ v₅ ⟨hok₅, hsame, hquiet⟩
        have honward₅ := honward.trans hquiet.onward
        rw [wpS_bind]
        split
        · rename_i hind
          refine fun v₆ hr₆ v₇ hr₇ => ⟨(hok₅.rely hr₆.1).rely hr₇.1, by rw [hsame],
            honward₅.trans (hr₆.1.trans hr₇.1).onward, fun hdet => ?_, fun _ => ?_⟩
          · rw [hdet] at hind
            cases hind
          · exact ⟨_, by rw [hsame], rfl⟩
        · rename_i hind
          rw [hp]
          refine wpS_modify.2 fun v₆ hr₆ v₇ hr₇ => ⟨?_, by rw [hsame],
            honward₅.trans (hr₆.1.trans hr₇.1).onward, fun _ => rfl, fun hnot => ?_⟩
          · exact (hok₅.setPending fun _ hq => by cases hq).rely (hr₆.1.trans hr₇.1)
          · exact absurd (by simpa [Determinate] using hind) hnot
    · rintro e v₃ ⟨hl₃, hdet⟩
      exact hearly hdet (hr₁.1.trans (hl₂.rely.trans hl₃.rely))
  · rintro e v₂ ⟨hl₂, hdet, _⟩
    exact hearly hdet (hr₁.1.trans hl₂.rely)

/-- The record of a call that returns now. -/
def View.record (v : View) (call : Call) (before : Session) (start : Nat) (reply : Except Err Reply) (after : Session) :
    Record := ⟨call, before, start, reply, after, v.world.log.length, v.cas, v.failed⟩

theorem SessionOk.newer {start : Nat} (h : SessionOk config i w s) (hs : start ≤ s.token)
    (hv : s.head.header.appliedRetentionVersion < request.policyVersion) : Newer config w start request := by
  obtain ⟨n, c, ht, hc, hh⟩ := h.version
  exact ⟨n, c, ht ▸ hs, hc, by rw [hh]; exact hv⟩

theorem applyPendingRetention_spec (h : SessionOk config i v.world s) (found : Bool) :
    (env config (.session i s.writerEpoch) s.Allows).wpS
      (fun r s' v' => SessionOk config i v'.world s' ∧ Told config i v'.world
        (v'.record (.applyPending request found) s v.world.log.length (.ok (.applied r)) s'))
      (fun e s' v' => SessionOk config i v'.world s' ∧ Told config i v'.world
        (v'.record (.applyPending request found) s v.world.log.length (.error e) s'))
      (applyPendingRetention config opts request found) s v := by
  unfold applyPendingRetention
  rw [wpS_bind]
  refine wpS_of_aside (wpE_mono ?_ ?_ (wpE_reader Reader.checkCtx v))
  · rintro _ v₁ ⟨hl₁, _⟩
    rw [wpS_bind]
    refine wpS_session fun v₂ hr₂ => ?_
    have hrely₂ := hl₁.rely.trans hr₂.1
    have hok₂ := h.rely hrely₂
    cases hp : s.pendingRetention with
    | some p =>
      refine wpS_mono ?_ ?_ (acknowledgeRetentionLocked_spec hok₂ hp)
      · rintro r s' v₃ ⟨hok, hepoch, hnone, hreq, happ, hdur, hen⟩
        refine ⟨hok, hepoch, ?_⟩
        simp only [View.record, hp]
        exact ⟨hreq, happ, hnone, hdur, hen⟩
      · rintro e s' v₃ ⟨hok, hepoch, hpend⟩
        refine ⟨hok, hepoch, ?_⟩
        simp only [View.record, hp]
        exact hpend
    | none =>
      have hallow : ∀ head next, s.Allows head next := fun _ _ q hq => by rw [hp] at hq; cases hq
      simp only [Option.isSome_none, Bool.false_eq_true, if_false]
      rw [wpS_bind]
      refine wpS_mono ?_ ?_ (refreshActiveLocked_spec hok₂)
      · rintro _ s₁ v₃ ⟨href, hactive⟩
        have hepoch : s₁.writerEpoch = s.writerEpoch := by rw [href.same]
        have hp₁ : s₁.pendingRetention = none := by rw [href.same, hp]
        rw [wpS_bind]
        refine wpS_session fun v₄ hr₄ => ?_
        have hok₄ := href.ok.rely hr₄.1
        split
        · rw [wpS_bind]
          refine wpS_ofExcept hok₄.partitionHead fun v₅ hr₅ v₆ hr₆ => ⟨hok₄.rely (hr₅.1.trans hr₆.1), hepoch, ?_⟩
          simp only [View.record, hp]
          exact ⟨hp₁, fun happ => by cases happ⟩
        · rename_i hcond
          rw [not_or, UInt64.not_le] at hcond
          rw [wpS_bind, ← hepoch]
          refine wpS_mono ?_ ?_ (applyRetentionLocked_spec hok₄ hp₁ hactive (href.untouched.rely hr₄.1) hcond.2 hallow)
          all_goals
            have hnewer := hok₄.newer (Nat.le_trans hrely₂.length href.length) hcond.2
          · rintro ⟨state, applied⟩ s₂ v₅ ⟨hok₅, hepoch₂, honward, hnone, hout⟩
            intro v₆ hr₆
            refine ⟨hok₅.rely hr₆.1, hepoch₂.trans hepoch, ?_⟩
            simp only [View.record, hp]
            refine ⟨hnone, fun _ => ⟨trivial, (hnewer.onward honward).onward hr₆.1.onward, ?_⟩⟩
            rw [hepoch] at hout
            exact hout.imp (fun hd => ⟨hd.1.onward hr₆.1.onward, hd.2.onward hr₆.1.onward hr₆.1.length⟩)
              (·.onward hr₆.1.onward hr₆.1.length)
          · rintro e s₂ v₅ ⟨hok₅, hepoch₂, honward, hnone, hsome⟩
            refine ⟨hok₅, hepoch₂.trans hepoch, ?_⟩
            simp only [View.record, hp]
            refine ⟨hnone, fun hnot => ?_⟩
            obtain ⟨q, hq, hreq⟩ := hsome hnot
            exact ⟨q, hq, hreq, hnewer.onward honward⟩
      · rintro e s₁ v₃ ⟨hb, hdet⟩
        refine ⟨hb.ok, by rw [hb.same]; rfl, ?_⟩
        simp only [View.record, hp]
        exact ⟨fun _ => by rw [hb.same, hp], fun hnot => absurd hdet hnot⟩
  · rintro e v₁ ⟨hl₁, hdet, _⟩
    refine ⟨h.rely hl₁.rely, rfl, ?_⟩
    cases hp : s.pendingRetention with
    | some p =>
      simp only [View.record, hp]
    | none =>
      simp only [View.record, hp]
      exact ⟨fun _ => trivial, fun hnot => absurd hdet hnot⟩

theorem reconcilePendingRetention_spec (h : SessionOk config i v.world s) :
    (env config (.session i s.writerEpoch) s.Allows).wpS
      (fun r s' v' => SessionOk config i v'.world s' ∧ Told config i v'.world
        (v'.record .reconcile s v.world.log.length (.ok (.reconciled r.1 r.2)) s'))
      (fun e s' v' => SessionOk config i v'.world s' ∧ Told config i v'.world
        (v'.record .reconcile s v.world.log.length (.error e) s')) (reconcilePendingRetention config opts) s v := by
  unfold reconcilePendingRetention
  rw [wpS_bind]
  refine wpS_session fun v₁ hr₁ => ?_
  cases hp : s.pendingRetention with
  | none =>
    refine fun v₂ hr₂ => ⟨h.rely (hr₁.1.trans hr₂.1), rfl, ?_⟩
    simp only [View.record, hp]
    exact ⟨trivial, rfl, trivial⟩
  | some p =>
    simp only [Option.isSome_some, if_true]
    rw [wpS_bind]
    refine wpS_mono ?_ ?_ (acknowledgeRetentionLocked_spec (h.rely hr₁.1) hp)
    · rintro r s' v₂ ⟨hok, hepoch, hnone, hreq, happ, hdur, hen⟩
      refine fun v₃ hr₃ => ⟨hok.rely hr₃.1, hepoch, ?_⟩
      simp only [View.record, hp]
      exact ⟨trivial, hreq, happ, hnone, hdur.onward hr₃.1.onward, hen.onward hr₃.1.onward hr₃.1.length⟩
    · rintro e s' v₂ ⟨hok, hepoch, hpend⟩
      refine ⟨hok, hepoch, ?_⟩
      simp only [View.record, hp]
      exact hpend

/-! ## Appending -/

/-- A retry of the segment at the tip of the cached head. -/
theorem acknowledgeTip_spec (h : SessionOk config i v.world s) (hactive : s.stale = false)
    (htip : s.head.hasLastSegment = true ∧ config.segmentRef s.head.lastSegment = segment) :
    (s.env config i allow).wpS
      (fun state s' v' => Beside config i s v s' v' ∧ Acknowledges config v'.world s.writerEpoch segment state)
      (fun _ s' v' => Beside config i s v s' v') (acknowledgeTip config segment) s v := by
  -- the cached head ends with the segment, and so did the head of the last acknowledgement
  have hcached : Acknowledges config v.world s.writerEpoch segment (config.publicState s.head) := by
    obtain ⟨n, c, _, hc, hh⟩ := h.version
    exact ⟨n, c, hc, by rw [hh], by rw [hh]; exact (h.active hactive).1, by rw [hh]; exact htip.1,
      by rw [hh]; exact htip.2⟩
  unfold acknowledgeTip
  rw [wpS_bind]
  refine wpS_session fun v₁ hr₁ => ?_
  rw [wpS_bind]
  refine wpS_mono (Q := fun a s' v' => s' = s ∧ (s.env config i allow).rely v v' ∧
    Acknowledges config v'.world s.writerEpoch segment a) ?_ (fun _ _ _ he => he) ?_
  · rintro acknowledged s₀ v₂ ⟨hs₀, hr₂, hack⟩
    obtain rfl : s = s₀ := hs₀.symm
    rw [wpS_bind]
    have hstart : ∀ {s' v₃}, Beside config i s v₂ s' v₃ → Beside config i s v s' v₃ :=
      fun hb => ⟨(Later.of_rely hr₂).trans hb.later, hb.same, hb.ok⟩
    refine wpS_mono ?_ ?_ (refreshLocked_spec (h.rely hr₂.1))
    · intro _ s₁ v₃ href
      have hb₃ := hstart href.toBeside
      have hack₃ := hack.onward href.later.rely.onward
      rw [wpS_bind]
      refine wpS_session fun v₄ hr₄ => ?_
      split
      · exact fun v₅ hr₅ => (hb₃.rely hr₄).rely hr₅
      rw [wpS_bind]
      refine wpS_of_aside (wpE_mono ?_ ?_ (wpE_reader (reader_findSegment _ _) v₄))
      all_goals
        have hlater : ∀ {v₅}, Later config i v₄ v₅ → Beside config i s v s₁ v₅ := fun hl =>
          ⟨((hb₃.rely hr₄).later).trans hl, hb₃.same, (hb₃.rely hr₄).ok.rely hl.rely⟩
      · rintro found v₅ ⟨hl₅, _⟩
        have hb₅ := hlater hl₅
        split
        · exact fun v₆ hr₆ => ⟨hb₅.rely hr₆,
            hack₃.onward ((hr₄.1.trans hl₅.rely).trans hr₆.1).onward⟩
        · exact fun v₆ hr₆ => hb₅.rely hr₆
      · rintro e v₅ ⟨hl₅, _⟩
        exact hlater hl₅
    · rintro e s₁ v₃ ⟨hb, _⟩
      exact hstart hb
  · split
    · exact wpS_ofExcept h.partitionHead fun v₂ hr₂ =>
        ⟨rfl, (env _ _ _).trans hr₁ hr₂, hcached.onward (hr₁.1.trans hr₂.1).onward⟩
    · rename_i hlast
      simp only [Bool.not_eq_true', not_or, Bool.not_eq_false, not_not, ne_eq] at hlast
      have hacked := h.acked hlast.1
      rw [hlast.2] at hacked
      exact fun v₂ hr₂ => ⟨rfl, (env _ _ _).trans hr₁ hr₂, hacked.onward (hr₁.1.trans hr₂.1).onward⟩

omit [Hashes] in
theorem Carried.refl (s : Session) : Carried s s := ⟨id, fun p hp => ⟨p.resolved, hp⟩⟩

omit [Hashes] in
theorem Carried.of_eq (h : s'.pendingRetention = s.pendingRetention) : Carried s s' := by
  refine ⟨fun hp => h.trans hp, fun p hp => ⟨p.resolved, ?_⟩⟩
  rw [h, hp]

omit [Hashes] in
theorem Carried.of_map (h : s'.pendingRetention = s.pendingRetention.map fun p => { p with resolved := true }) :
    Carried s s' := by
  refine ⟨fun hp => ?_, fun p hp => ⟨true, ?_⟩⟩
  · rw [h, hp, Option.map_none]
  · rw [h, hp, Option.map_some]

/-- The exits before the session's own append: it has at most finished an outstanding retention. -/
theorem Resolving.unappended {e : Err} (hr : Resolving config i s v s' v') (hcas : v.cas = false) {s'' : Session} :
    Unappended config v'.world (v'.record (.append segment) s v.world.log.length (.error e) s'') segment e := by
  intro _ hcas' _ _ hpend k _ happ
  rcases hpend with hset | ⟨hown, hbefore⟩
  · rw [View.record, hr.cas hset, hcas] at hcas'
    cases hcas'
  · have hepoch : s'.writerEpoch = s.writerEpoch := by rw [hr.same]
    obtain ⟨b, c, hb, hc, _⟩ := happ.appends hr.ok.linear
    have hce := (happ.epoch hr.ok.linear hb hc).2
    have hpid := hr.ok.pid_of_epoch hc (hce.trans (hown.trans hepoch.symm))
    rcases hr.quiet.own k b c hb hc hpid with hc' | hnext
    · have hlen := (List.getElem?_eq_some_iff.1 hc').1
      exact hbefore k hlen happ
    · exact happ.nextLSN_ne hr.ok.linear hb hc hnext

/-- An append that landed. -/
theorem Committing.acknowledges (h : Committing config i allow s m w)
    (happ : append config s.head segment = .ok m) (hl : Landed w s.token m) :
    Acknowledges config w s.writerEpoch segment (config.publicState m.head) := by
  obtain ⟨c, hc, hb⟩ := hl
  have henc := h.encodes
  rw [← hb] at henc
  obtain ⟨_, _, _, hlast, hflag⟩ := append_range happ
  refine ⟨s.token, c, hc, ?_⟩
  rw [henc.commit_head, hlast, append_segmentRef happ]
  exact ⟨rfl, h.fence.1, hflag, rfl⟩

/-- The session's own append. Its record of an outstanding retention, if any, is resolved. -/
theorem commitAppendLocked_spec (h : SessionOk config i v.world s)
    (hactive : s.stale = false) (hset : s.Settled) (happ : append config s.head segment = .ok m)
    (hs : Stored v.world.pages m.pages) (hallow : allow s.head m.head) :
    (s.env config i allow).wpS (fun state s' v' => SessionOk config i v'.world s' ∧
        s' = { s with head := s'.head, token := s'.token, stale := s'.stale } ∧
        Acknowledges config v'.world s.writerEpoch segment state)
      (fun e s' v' => SessionOk config i v'.world s' ∧ s' = { s with stale := s'.stale } ∧
        (Determinate e → Readable config segment v' → ∀ k, ¬ AppendedAt config v'.world k (Config.entryOf segment)))
      (commitAppendLocked config opts s.head m segment) s v := by
  have hfence := h.active hactive
  have hc : Committing config i allow s m v.world := by
    refine ⟨h.linear, h.version, ?_, hallow, hfence, h.own⟩
    rw [← hfence.1]
    exact .append happ (hfence.2.trans h.id) hs
  have halone : ∀ {w'} q u, s.pendingRetention = some q → Outstanding config i v.world s.writerEpoch s.token q u →
      q.resolved = false → Alone i w' u q.mutation := by
    intro w' q u hq _ hres
    rw [hset q hq] at hres
    cases hres
  refine wpS_mono ?_ ?_ (commitLocked_spec (confirms_append happ) hc)
  · intro state s' v' hcom
    refine ⟨?_, hcom.same, ?_⟩
    · exact h.move hcom.after.onward hcom.same hcom.version hcom.later hcom.active
        (fun k c hk hc hi => absurd hi (hcom.untouched k c hk hc)) halone
    · rw [hcom.state]
      exact (hc.after hcom.after).acknowledges happ (or_self_iff.1 hcom.sure)
  · intro e s' v' href
    have hc' := hc.after href.after
    have hhead : s'.head = s.head := by rw [href.same]
    have htoken : s'.token = s.token := by rw [href.same]
    refine ⟨h.move href.after.onward ?_ ?_ (Nat.le_of_eq htoken.symm) ?_ ?_ halone, href.same, fun hdet hread k ha => ?_⟩
    · rw [hhead, htoken]
      exact href.same
    · rw [hhead, htoken]
      exact hc'.version
    · rw [hhead]
      exact fun _ => hfence
    · rw [htoken]
      exact hc'.own
    · exact href.unlanded hdet hread (hc'.landed_of_appended happ ha)

theorem appendSegment_spec (h : SessionOk config i v.world s) (hcas : v.cas = false) :
    (env config (.session i s.writerEpoch) s.Allows).wpS
      (fun state s' v' => SessionOk config i v'.world s' ∧ Told config i v'.world
        (v'.record (.append segment) s v.world.log.length (.ok (.appended state)) s'))
      (fun e s' v' => SessionOk config i v'.world s' ∧ Told config i v'.world
        (v'.record (.append segment) s v.world.log.length (.error e) s')) (appendSegment config opts segment) s v := by
  have hallow : ∀ q, s.pendingRetention = some q → s.Allows q.previous q.mutation.head := by
    intro q hq q' hq'
    obtain rfl := Option.mem_unique hq hq'
    exact .inl rfl
  -- an exit without a swap
  have hlater : ∀ {e : Err} {v'}, Later config i v v' → SessionOk config i v'.world s ∧ Told config i v'.world
      (v'.record (.append segment) s v.world.log.length (.error e) s) := fun hl =>
    ⟨h.rely hl.rely, rfl, Carried.refl s, (Beside.resolving ⟨hl, rfl, h.rely hl.rely⟩).unappended hcas⟩
  unfold appendSegment
  rw [wpS_bind]
  refine wpS_of_aside (wpE_mono ?_ ?_ (wpE_reader Reader.checkCtx v))
  · rintro _ v₁ ⟨hl₁, _⟩
    rw [wpS_bind]
    refine wpS_session fun v₂ hr₂ => ?_
    have hl₂ := hl₁.trans (.of_rely hr₂)
    split
    · -- a stale session repeats its last acknowledgement
      refine wpS_except (fun state hstate v₃ hr₃ => ?_) (fun e _ v₃ hr₃ => hlater (hl₂.trans (.of_rely hr₃)))
      have hrely := hl₂.rely.trans hr₃.1
      refine ⟨h.rely hrely, rfl, Carried.refl s, ?_⟩
      unfold acknowledgeStale at hstate
      split at hstate
      · rename_i hlast
        split at hstate
        · cases hstate
        · cases hstate
          exact hlast.2 ▸ (h.acked hlast.1).onward hrely.onward
      · cases hstate
    rename_i hactive
    replace hactive : s.stale = false := by simpa using hactive
    have hok₂ := h.rely hl₂.rely
    rw [wpS_bind]
    refine wpS_mono ?_ ?_ (resolveRetentionLocked_spec hok₂ hallow)
    all_goals
      have hjoin : ∀ {s' v'}, Resolving config i s v₂ s' v' → Resolving config i s v s' v' := fun hr =>
        ⟨hr.ok, (Quiet.of_rely hl₂.rely).trans hr.quiet, fun hs => (hr.cas hs).trans hl₂.cas, hr.same⟩
    · rintro _ s₁ v₃ ⟨hres, hstale, hpend⟩
      replace hres := hjoin hres
      have hepoch : s₁.writerEpoch = s.writerEpoch := by rw [hres.same]
      have hactive₁ := hstale hactive
      have hset₁ : s₁.Settled := by
        intro q hq
        rw [hpend] at hq
        obtain ⟨p, _, rfl⟩ := Option.map_eq_some_iff.1 hq
        rfl
      -- an exit after the resolution and before the append
      have hexit : ∀ {e : Err} {s₂ v'}, Beside config i s₁ v₃ s₂ v' → SessionOk config i v'.world s₂ ∧
          Told config i v'.world (v'.record (.append segment) s v.world.log.length (.error e) s₂) := by
        intro e s₂ v' hb
        have hres' : Resolving config i s v s₂ v' :=
          ⟨hb.ok, hres.quiet.trans (.of_rely hb.later.rely), fun hs => hb.later.cas.trans (hres.cas hs),
            by rw [hb.same, hres.same]⟩
        refine ⟨hb.ok, hb.same ▸ hepoch, .of_map ?_, hres'.unappended hcas⟩
        exact (show s₂.pendingRetention = s₁.pendingRetention by rw [hb.same]).trans hpend
      rw [wpS_bind]
      refine wpS_session fun v₄ hr₄ => ?_
      have hb₄ : Beside config i s₁ v₃ s₁ v₄ := ⟨.of_rely hr₄, rfl, hres.ok.rely hr₄.1⟩
      rw [← hepoch]
      split
      · rename_i htip
        refine wpS_mono ?_ ?_ (acknowledgeTip_spec hb₄.ok hactive₁ htip)
        · rintro state s₂ v₅ ⟨hb, hack⟩
          refine ⟨hb.ok, hb.same ▸ hepoch, .of_map ?_, hepoch ▸ hack⟩
          exact (show s₂.pendingRetention = s₁.pendingRetention by rw [hb.same]).trans hpend
        · intro e s₂ v₅ hb
          exact hexit ⟨hb₄.later.trans hb.later, hb.same, hb.ok⟩
      rw [wpS_bind]
      refine wpS_except (fun mutation happ v₅ hr₅ => ?_) (fun e _ v₅ hr₅ => hexit (hb₄.rely hr₅))
      rw [wpS_bind]
      have hb₅ := hb₄.rely hr₅
      refine wpS_of_aside (wpE_mono ?_ ?_ (wpE_putPages mutation.pages))
      · rintro _ v₆ ⟨hl₆, hstored⟩
        rw [wpS_bind]
        have hversion : mutation.head.header.appliedRetentionVersion = s₁.head.header.appliedRetentionVersion := by
          obtain ⟨_, _, _, _, hhead, _⟩ := append_ok happ
          rw [hhead]
          rfl
        refine wpS_mono ?_ ?_ (commitAppendLocked_spec (hb₅.ok.rely hl₆.rely) hactive₁ hset₁ happ hstored
          (fun _ _ => .inr hversion))
        · rintro state s₂ v₇ ⟨hok₇, hsame, hack⟩
          rw [wpS_bind]
          refine wpS_modify.2 fun v₈ hr₈ v₉ hr₉ => ?_
          have hrely := hr₈.1.trans hr₉.1
          have hepoch₂ : s₂.writerEpoch = s₁.writerEpoch := by rw [hsame]
          have hok₉ := hok₇.rely hrely
          have hack₉ := hack.onward hrely.onward
          refine ⟨⟨hok₉.linear, hok₉.id, hok₉.version, hok₉.acquired, hok₉.active, hok₉.own, fun _ => ?_,
            hok₉.outstanding⟩, hepoch₂.trans hepoch, .of_map ?_, hepoch ▸ hack₉⟩
          · rw [← hepoch₂] at hack₉
            exact hack₉
          · exact (show s₂.pendingRetention = s₁.pendingRetention by rw [hsame]).trans hpend
        · rintro e s₂ v₇ ⟨hok₇, hsame, hno⟩
          refine ⟨hok₇, (show s₂.writerEpoch = s₁.writerEpoch by rw [hsame]).trans hepoch, .of_map ?_,
            fun hdet _ hfailed hold _ k _ => hno hdet ⟨hfailed, fun n c hc => ?_⟩ k⟩
          · exact (show s₂.pendingRetention = s₁.pendingRetention by rw [hsame]).trans hpend
          · exact hold n c (List.getElem?_eq_some_iff.1 hc).1 hc
      · rintro e v₆ ⟨hl₆, _⟩
        exact hexit ⟨hb₅.later.trans hl₆, rfl, hb₅.ok.rely hl₆.rely⟩
    · rintro e s₁ v₃ ⟨hres, _, hpend⟩
      replace hres := hjoin hres
      exact ⟨hres.ok, by rw [hres.same]; rfl, .of_eq hpend, hres.unappended hcas⟩
  · rintro e v₁ ⟨hl₁, _⟩
    exact hlater hl₁

/-! ## Any call -/

theorem Call.run_spec (h : SessionOk config i v.world s) (hcas : v.cas = false) (call : Call) :
    (env config (.session i s.writerEpoch) s.Allows).wpS (fun reply s' v' => SessionOk config i v'.world s' ∧
        Told config i v'.world (v'.record call s v.world.log.length (.ok reply) s'))
      (fun e s' v' => SessionOk config i v'.world s' ∧
        Told config i v'.world (v'.record call s v.world.log.length (.error e) s')) (call.run config opts) s v := by
  cases call with
  | append segment => exact wpS_map (appendSegment_spec h hcas)
  | applyPending request found => exact wpS_map (applyPendingRetention_spec h found)
  | reconcile => exact wpS_map (reconcilePendingRetention_spec h)

end

end ObjLog.Catengine
