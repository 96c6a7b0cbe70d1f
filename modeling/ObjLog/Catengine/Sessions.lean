import ObjLog.Catengine.Evidence
/-!
# What a session knows between its calls

`SessionOk` ties a session to the log: its cached head is the version its token
names, its epoch was acquired by its own opener, it has committed nothing after
the cached version but one mutation, what it acknowledged is durable, and an
outstanding retention is a mutation of a version under the session's fence.
Every call keeps it (`Calls`). This module has the parts the calls share:
refreshing the cached head and resolving an outstanding retention.
-/

namespace ObjLog.Catengine

open Lib Env Catformat Pmeta Blobstore

variable {token : Token} {head : Head}

variable [Hashes] {config : Config} {i : Pid} {n t : Nat} {c : Commit} {allow : Head → Head → Prop}
  {w w' w'' : World} {s s' : Session} {m : Mutation} {p : RetentionCommit} {epoch : UInt64}

/-- The log and the pages of `w` are still there in `w'`. -/
structure Onward (config : Config) (w w' : World) : Prop where
  linear : Linear config w → Linear config w'
  kept : ∀ (k : Nat) d, w.log[k]? = some d → w'.log[k]? = some d
  pages : Grows w.pages w'.pages

theorem Rely.onward (h : Rely config i w w') : Onward config w w' := ⟨h.linear, fun _ _ => h.kept, h.pages⟩

theorem After.onward (h : After config i n c w w') : Onward config w w' := ⟨h.linear, h.kept, h.pages⟩

theorem Onward.version (h : Onward config w w') (hv : Version config w token head) : Version config w' token head := by
  obtain ⟨n, c, ht, hc, hh⟩ := hv
  exact ⟨n, c, ht, h.kept n c hc, hh⟩

theorem Onward.landed (h : Onward config w w') (hl : Landed w n m) : Landed w' n m := by
  obtain ⟨c, hc, hb⟩ := hl
  exact ⟨c, h.kept n c hc, hb⟩

/-! ## Acknowledged appends and outstanding retention -/

/-- `state` is the public state of a head of the epoch that was durable and ends with the segment. -/
def Acknowledges (config : Config) (w : World) (epoch : UInt64) (segment : SegmentRef) (state : PartitionHead) : Prop :=
  ∃ (n : Nat) (c : Commit), w.log[n]? = some c ∧ config.publicState (c.head config) = state ∧
    (c.head config).header.writerEpoch = epoch ∧ (c.head config).hasLastSegment = true ∧
    config.segmentRef (c.head config).lastSegment = segment

theorem Acknowledges.onward {segment : SegmentRef} {state : PartitionHead} (h : Acknowledges config w epoch segment state)
    (ho : Onward config w w') : Acknowledges config w' epoch segment state := by
  obtain ⟨n, c, hc, hrest⟩ := h
  exact ⟨n, c, ho.kept n c hc, hrest⟩

/-- `p` is a newer policy applied to version `t` of the head, under the fence of process `i`. -/
structure Prepared (config : Config) (i : Pid) (w : World) (epoch : UInt64) (p : RetentionCommit)
    (t : Nat) : Prop where
  version : Version config w t p.previous
  fence : p.previous.header.writerEpoch = epoch ∧ p.previous.header.writerID = i
  retention : eval w.pages (applyRetention config p.previous p.request.beforeLSN p.request.policyVersion) =
    .ok p.mutation
  newer : p.previous.header.appliedRetentionVersion < p.request.policyVersion
  stored : Stored w.pages p.mutation.pages

/-- After version `t` the process has committed the mutation or nothing. -/
def Alone (i : Pid) (w : World) (t : Nat) (m : Mutation) : Prop :=
  ∀ (k : Nat) c, t ≤ k → w.log[k]? = some c → c.author.pid = i → k = t ∧ c.body = m.headBody

theorem Alone.rely (h : Alone i w t m) (hr : Rely config i w w') : Alone i w' t m :=
  fun k c hk hc hi => h k c hk (hr.own hc hi) hi

namespace Prepared

section
variable (h : Prepared config i w epoch p t)
include h

theorem onward (ho : Onward config w w') : Prepared config i w' epoch p t :=
  ⟨ho.version h.version, h.fence, (reader_applyRetention _ _ _).eval_mono ho.pages h.retention, h.newer,
    h.stored.mono ho.pages⟩

theorem reachable (hl : Linear config w) : Reachable config w.pages p.previous := by
  obtain ⟨n, c, _, hc, hh⟩ := h.version
  rw [← hh]
  exact (hl.reachable hc).1

theorem applied (hl : Linear config w) :
    RetentionApplied config p.previous p.request.beforeLSN p.request.policyVersion p.mutation :=
  (retention_progress (h.reachable hl) h.retention h.newer h.stored).2

theorem mutates : Mutates config w.pages (.session i epoch) p.previous p.mutation := by
  rw [← h.fence.1]
  exact .retention h.retention h.newer h.fence.2 h.stored

theorem encodes (hl : Linear config w) :
    Encodes config p.mutation.head p.mutation.headBody := h.mutates.encodes (h.reachable hl)

end

variable (hl : Linear config w) (h : Prepared config i w epoch p t)
include hl h

/-- The first version after `t` under the fence is the mutation. -/
theorem landed_of_later (ha : Alone i w t p.mutation) (hc : w.log[n]? = some c) (htn : t ≤ n)
    (he : (c.head config).header.writerEpoch = epoch) : Landed w t p.mutation := by
  obtain ⟨u, b, rfl, hb, hhead⟩ := h.version
  obtain ⟨d, hd⟩ := World.exists_le htn hc
  have hbe : (b.head config).header.writerEpoch = epoch := by
    rw [hhead]
    exact h.fence.1
  have hde : (d.head config).header.writerEpoch = (b.head config).header.writerEpoch := by
    refine UInt64.le_antisymm ?_ (hl.step_progress hb hd).1.writerEpoch
    rw [hbe, ← he]
    exact (hl.progress htn hd hc).writerEpoch
  have hpid := hl.pid_of_epoch (i := i) hb (by rw [hhead]; exact h.fence.2) hd hde
  exact ⟨d, hd, (ha (u + 1) d (Nat.le_refl _) hd hpid).2⟩

/-- A version under the fence that has reached the policy. -/
theorem landed_of_applied (ha : Alone i w t p.mutation)
    (hv : Version config w token head) (hle : t ≤ token) (he : head.header.writerEpoch = epoch)
    (happ : retentionApplied head p.mutation = true) : Landed w t p.mutation := by
  obtain ⟨n, c, rfl, hc, rfl⟩ := hv
  rcases Nat.lt_or_eq_of_le hle with hlt | rfl
  · exact h.landed_of_later hl ha hc (Nat.le_of_lt_succ hlt) he
  · -- version `t` itself has an older policy
    obtain ⟨n', b, ht, hb, hhead⟩ := h.version
    obtain rfl := Nat.succ.inj ht
    obtain rfl := Option.mem_unique hc hb
    have hversion : p.mutation.head.header.appliedRetentionVersion = p.request.policyVersion := by
      rw [(h.applied hl).header]
    simp only [retentionApplied, decide_eq_true_eq, hversion, hhead] at happ
    exact absurd h.newer (UInt64.not_lt.2 happ.1)

/-- The commit that made the mutation durable is the session's. -/
theorem author (hc : w.log[t]? = some c) (hb : c.body = p.mutation.headBody) : c.author = .session i epoch := by
  obtain ⟨u, b, rfl, hb', hhead⟩ := h.version
  have henc := h.encodes hl
  rw [← hb] at henc
  have hepoch : (c.head config).header.writerEpoch = (b.head config).header.writerEpoch := by
    rw [henc.commit_head, hhead, (h.applied hl).header]
  have hpid := hl.pid_of_epoch (i := i) hb' (by rw [hhead]; exact h.fence.2) hc hepoch
  have hauthor := (hl.session_of_epoch (Nat.lt_succ_self u) hb' hc hepoch).1
  rw [hpid, hhead, h.fence.1] at hauthor
  exact hauthor

end Prepared

/-- The retention a session still has to acknowledge. -/
structure Outstanding (config : Config) (i : Pid) (w : World) (epoch : UInt64) (token : Token)
    (p : RetentionCommit) (t : Nat) : Prop where
  prepared : Prepared config i w epoch p t
  le : t ≤ token
  resolved : p.resolved = true → Landed w t p.mutation
  unresolved : p.resolved = false → Alone i w t p.mutation

/-! ## The invariant -/

/-- A takeover leaves the opener's id. -/
theorem Linear.opener_id (h : Linear config w) (hc : w.log[n]? = some c) (ha : c.author = .opener i) :
    (c.head config).header.writerID = i := by
  cases n with
  | succ n =>
    have := h.owner hc
    rwa [ha] at this
  | zero =>
    obtain ⟨head, hs⟩ := h.first c hc
    obtain ⟨_, henc⟩ : Reachable config w.pages head ∧ Encodes config head c.body := hs.reachable
    rw [henc.commit_head]
    rw [ha] at hs
    generalize c.body = body at hs
    cases hs with
    | taken _ ht => rw [(takeover_ok ht).1.eq]

structure SessionOk (config : Config) (i : Pid) (w : World) (s : Session) : Prop where
  linear : Linear config w
  id : s.writerID = i
  version : Version config w s.token s.head
  acquired : ∃ (n : Nat) (c : Commit), n < s.token ∧ w.log[n]? = some c ∧ c.author = .opener i ∧
    (c.head config).header.writerEpoch = s.writerEpoch
  active : s.stale = false → s.head.header.writerEpoch = s.writerEpoch ∧ s.head.header.writerID = s.writerID
  own : ∀ (k : Nat) c, s.token ≤ k → w.log[k]? = some c → c.author.pid = i → k = s.token
  acked : s.hasLastAppend = true → Acknowledges config w s.writerEpoch s.lastAppend s.lastAppendState
  outstanding : ∀ p, s.pendingRetention = some p → ∃ t, Outstanding config i w s.writerEpoch s.token p t

namespace SessionOk

variable (h : SessionOk config i w s)
include h

/-- The session adopts a version it has not committed beyond. -/
theorem move (ho : Onward config w w') (hsame : s' = { s with head := s'.head, token := s'.token, stale := s'.stale })
    (hv : Version config w' s'.token s'.head) (hle : s.token ≤ s'.token)
    (hactive : s'.stale = false → s'.head.header.writerEpoch = s.writerEpoch ∧ s'.head.header.writerID = s.writerID)
    (hown : ∀ (k : Nat) c, s'.token ≤ k → w'.log[k]? = some c → c.author.pid = i → k = s'.token)
    (halone : ∀ p t, s.pendingRetention = some p → Outstanding config i w s.writerEpoch s.token p t →
      p.resolved = false → Alone i w' t p.mutation) : SessionOk config i w' s' := by
  rw [hsame]
  refine ⟨ho.linear h.linear, h.id, hv, ?_, hactive, hown, fun ha => (h.acked ha).onward ho, fun p hp => ?_⟩
  · obtain ⟨n, c, hn, hc, hrest⟩ := h.acquired
    exact ⟨n, c, Nat.lt_of_lt_of_le hn hle, ho.kept n c hc, hrest⟩
  · obtain ⟨t, hout⟩ := h.outstanding p hp
    exact ⟨t, hout.prepared.onward ho, Nat.le_trans hout.le hle, fun hres => ho.landed (hout.resolved hres),
      halone p t hp hout⟩

theorem rely (hr : Rely config i w w') : SessionOk config i w' s :=
  h.move hr.onward rfl (h.version.rely hr) (Nat.le_refl _) h.active
    (fun k c hk hc hi => h.own k c hk (hr.own hc hi) hi) (fun _ _ _ ho hres => (ho.unresolved hres).rely hr)

theorem token_le : s.token ≤ w.log.length := by
  obtain ⟨n, c, ht, hc, _⟩ := h.version
  rw [ht]
  exact (List.getElem?_eq_some_iff.1 hc).1

theorem encodes : ∃ body, Encodes config s.head body := by
  obtain ⟨n, c, _, hc, hh⟩ := h.version
  exact ⟨c.body, hh ▸ (h.linear.reachable hc).2⟩

theorem partitionHead : config.partitionHead s.head = .ok (config.publicState s.head) := by
  obtain ⟨_, he⟩ := h.encodes
  exact he.partitionHead

/-- Only the session's own process commits under its epoch. -/
theorem pid_of_epoch (hc : w.log[n + 1]? = some c)
    (he : (c.head config).header.writerEpoch = s.writerEpoch) : c.author.pid = i := by
  obtain ⟨k, b, _, hb, hauthor, hepoch⟩ := h.acquired
  exact h.linear.pid_of_epoch hb (h.linear.opener_id hb hauthor) hc (he.trans hepoch.symm)

end SessionOk

/-! ## Reading the head anew -/

/-- The others moved, and the session may have adopted a head it read. -/
structure Beside (config : Config) (i : Pid) (s : Session) (v : View) (s' : Session) (v' : View) :
    Prop where
  later : Later config i v v'
  same : s' = { s with head := s'.head, token := s'.token, stale := s'.stale }
  ok : SessionOk config i v'.world s'

/-- The session adopted a head that was current during the call. -/
structure Refreshed (config : Config) (i : Pid) (s : Session) (v : View) (s' : Session)
    (v' : View) : Prop extends Beside config i s v s' v' where
  untouched : Untouched i v'.world s'.token
  length : v.world.log.length ≤ s'.token

section
variable {v v' v'' : View} {e : Err}

theorem Beside.rely (h : Beside config i s v s' v')
    (hr : (env config (.session i epoch) allow).rely v' v'') : Beside config i s v s' v'' :=
  ⟨h.later.trans (.of_rely hr), h.same, h.ok.rely hr.1⟩

theorem Refreshed.rely (h : Refreshed config i s v s' v')
    (hr : (env config (.session i epoch) allow).rely v' v'') : Refreshed config i s v s' v'' :=
  ⟨h.toBeside.rely hr, h.untouched.rely hr.1, h.length⟩

theorem refreshLocked_spec (h : SessionOk config i v.world s) :
    (env config (.session i epoch) allow).wpS (fun _ s' v' => Refreshed config i s v s' v')
      (fun e s' v' => Beside config i s v s' v' ∧ Foreign e) (refreshLocked config) s v := by
  unfold refreshLocked
  rw [wpS_bind]
  refine wpS_of_aside (wpE_mono ?_ ?_ (wpE_load h.linear))
  · rintro ⟨head, token⟩ v₁ ⟨hlater, hu, hlen, hversion⟩
    have htoken : s.token ≤ token := Nat.le_trans h.token_le hlen
    replace hversion : Version config v₁.world token head := by
      refine hversion.resolve_right fun hzero => ?_
      obtain ⟨k, _, hk, _⟩ := h.version
      rw [hk, show token = 0 from hzero.1] at htoken
      exact absurd htoken (Nat.not_succ_le_zero k)
    rw [wpS_bind]
    refine wpS_observe fun v₂ hr₂ => wpS_setHead fun v₃ hr₃ => ?_
    have hr := (env config (.session i epoch) allow).trans hr₂ hr₃
    have hrely := hlater.rely.trans hr.1
    have hu' := hu.rely hr.1
    refine ⟨⟨hlater.trans (.of_rely hr), by rw [s.observe_same], ?_⟩, hu', hlen⟩
    refine h.move hrely.onward (by rw [s.observe_same]) (hversion.rely hr.1) htoken
      (fun hact => (Session.observe_active hact).2) ?_ (fun _ _ _ ho hres => (ho.unresolved hres).rely hrely)
    exact fun k c hk hc hi => absurd hi (hu' k c hk hc)
  · rintro e v₁ ⟨hlater, hforeign⟩
    exact ⟨⟨hlater, rfl, h.rely hlater.rely⟩, hforeign h.version.ne_nil⟩

theorem refreshActiveLocked_spec (h : SessionOk config i v.world s) : (env config (.session i epoch) allow).wpS
      (fun _ s' v' => Refreshed config i s v s' v' ∧ s'.stale = false)
      (fun e s' v' => Beside config i s v s' v' ∧ Determinate e) (refreshActiveLocked config) s v := by
  have hstale : Determinate (staleWriter config) := rfl
  unfold refreshActiveLocked
  rw [wpS_bind]
  refine wpS_session fun v₁ hr₁ => ?_
  have hb₁ : Beside config i s v s v₁ := ⟨.of_rely hr₁, rfl, h.rely hr₁.1⟩
  split
  · exact fun v₂ hr₂ => ⟨hb₁.rely hr₂, hstale⟩
  rw [wpS_bind]
  refine wpS_mono ?_ ?_ (refreshLocked_spec hb₁.ok)
  · intro _ s' v₂ href
    have href' : Refreshed config i s v s' v₂ :=
      ⟨⟨hb₁.later.trans href.later, href.same, href.ok⟩, href.untouched, Nat.le_trans hr₁.1.length href.length⟩
    rw [wpS_bind]
    refine wpS_session fun v₃ hr₃ => ?_
    split
    · exact fun v₄ hr₄ => ⟨(href'.rely hr₃).toBeside.rely hr₄, hstale⟩
    · rename_i hactive
      exact fun v₄ hr₄ => ⟨(href'.rely hr₃).rely hr₄, by simpa using hactive⟩
  · rintro e s' v₂ ⟨hb, hforeign⟩
    exact ⟨⟨hb₁.later.trans hb.later, hb.same, hb.ok⟩, hforeign.determinate⟩

end

/-! ## Resolving an outstanding retention -/

/-- The process's own commits since `w` move no LSN. -/
structure Quiet (config : Config) (i : Pid) (w w' : World) : Prop where
  onward : Onward config w w'
  own : ∀ (k : Nat) b c, w'.log[k]? = some b → w'.log[k + 1]? = some c → c.author.pid = i →
    w.log[k + 1]? = some c ∨ (c.head config).header.nextLSN = (b.head config).header.nextLSN

theorem Quiet.of_rely (h : Rely config i w w') : Quiet config i w w' :=
  ⟨h.onward, fun _ _ _ _ hc hi => .inl (h.own hc hi)⟩

theorem Onward.trans (h : Onward config w w') (h' : Onward config w' w'') : Onward config w w'' :=
  ⟨h'.linear ∘ h.linear, fun k d hd => h'.kept k d (h.kept k d hd), h.pages.trans h'.pages⟩

theorem Quiet.trans (h : Quiet config i w w') (h' : Quiet config i w' w'') : Quiet config i w w'' := by
  refine ⟨h.onward.trans h'.onward, fun k b c hb hc hi => ?_⟩
  rcases h'.own k b c hb hc hi with hc' | hnext
  · obtain ⟨b', hb'⟩ := World.exists_le (Nat.le_succ k) hc'
    obtain rfl := Option.mem_unique hb (h'.onward.kept k b' hb')
    exact h.own k b c hb' hc' hi
  · exact .inr hnext

/-- A commit that keeps the next LSN of the version it follows. -/
theorem After.quiet (h : After config i token c w w')
    (hv : Version config w token head) (hnext : (c.head config).header.nextLSN = head.header.nextLSN) :
    Quiet config i w w' := by
  refine ⟨h.onward, fun k b d hb hd hi => ?_⟩
  rcases h.own (k + 1) d hd hi with hd | ⟨hk, rfl⟩
  · exact .inl hd
  · obtain ⟨n, b', rfl, hb', rfl⟩ := hv
    obtain rfl := Nat.succ.inj hk
    obtain rfl := Option.mem_unique hb (h.kept k b' hb')
    exact .inr hnext

/-- No retention whose outcome is unknown. -/
def Session.Settled (s : Session) : Prop := ∀ p, s.pendingRetention = some p → p.resolved = true

/-- What resolving an outstanding retention may do, whether or not it succeeds. -/
structure Resolving (config : Config) (i : Pid) (s : Session) (v : View) (s' : Session)
    (v' : View) : Prop where
  ok : SessionOk config i v'.world s'
  quiet : Quiet config i v.world v'.world
  cas : s.Settled → v'.cas = v.cas
  same : s' = { s with head := s'.head, token := s'.token, stale := s'.stale, pendingRetention := s'.pendingRetention }

section
variable {v v' v'' : View} {e : Err}

theorem Resolving.rely (h : Resolving config i s v s' v')
    (hr : (env config (.session i epoch) allow).rely v' v'') : Resolving config i s v s' v'' :=
  ⟨h.ok.rely hr.1, h.quiet.trans (.of_rely hr.1), fun hs => hr.2.1.trans (h.cas hs), h.same⟩

theorem Beside.resolving (h : Beside config i s v s' v') : Resolving config i s v s' v' :=
  ⟨h.ok, .of_rely h.later.rely, fun _ => h.later.cas, by rw [h.same]⟩

section
variable (h : SessionOk config i w s)
include h

/-- The record of the retention is replaced. -/
theorem SessionOk.setPending {q : Option RetentionCommit}
    (hq : ∀ p, q = some p → ∃ t, Outstanding config i w s.writerEpoch s.token p t) :
    SessionOk config i w { s with pendingRetention := q } :=
  ⟨h.linear, h.id, h.version, h.acquired, h.active, h.own, h.acked, hq⟩

/-- The mutation landed. -/
theorem SessionOk.resolve (ho : Outstanding config i w s.writerEpoch s.token p t) (hl : Landed w t p.mutation) :
    SessionOk config i w { s with pendingRetention := some { p with resolved := true } } := by
  refine h.setPending fun q hq => ⟨t, ?_⟩
  obtain rfl := Option.some.inj hq
  exact ⟨⟨ho.prepared.version, ho.prepared.fence, ho.prepared.retention, ho.prepared.newer, ho.prepared.stored⟩, ho.le,
    fun _ => hl, fun hres => by cases hres⟩

/-- A session whose cached head is the one the outstanding retention was prepared for may commit it. -/
theorem SessionOk.committing (hactive : s.stale = false)
    (ho : Outstanding config i w s.writerEpoch s.token p t) (hsame : p.previous = s.head)
    (hallow : allow p.previous p.mutation.head) : Committing config i allow s p.mutation w :=
  ⟨h.linear, h.version, hsame ▸ ho.prepared.mutates, hsame ▸ hallow, h.active hactive, h.own⟩

theorem Outstanding.token_eq
    (ho : Outstanding config i w s.writerEpoch s.token p t) (hsame : p.previous = s.head) : t = s.token := by
  obtain ⟨n, b, rfl, hb, hbh⟩ := ho.prepared.version
  obtain ⟨k, c, hk, hc, hch⟩ := h.version
  rw [hk, h.linear.index_eq hb hc (by rw [hbh, hch, hsame])]

end

/-- While it commits the outstanding retention the session adds nothing else. -/
theorem Alone.after (h : Alone i w t m) (ha : After config i t ⟨.session i epoch, m.headBody⟩ w w') :
    Alone i w' t m := by
  intro k c hk hc hi
  rcases ha.own k c hc hi with hc | ⟨rfl, rfl⟩
  · exact h k c hk hc hi
  · exact ⟨rfl, rfl⟩

theorem Prepared.nextLSN (h : Prepared config i w epoch p t) (hl : Linear config w) :
    p.mutation.head.header.nextLSN = p.previous.header.nextLSN := by
  rw [(h.applied hl).header]

/-- The commit of an outstanding retention. A session that is still active afterwards made it durable itself. -/
theorem commitRetentionLocked_spec {opts : EngineOptions}
    (h : SessionOk config i v.world s) (hactive : s.stale = false) (hp : s.pendingRetention = some p)
    (hsame : p.previous = s.head) (hallow : allow p.previous p.mutation.head) :
    (env config (.session i s.writerEpoch) allow).wpS
      (fun state s' v' => state = config.publicState p.mutation.head ∧ SessionOk config i v'.world s' ∧
        s' = { s with head := s'.head, token := s'.token, stale := s'.stale } ∧
        Quiet config i v.world v'.world ∧
        After config i s.token (s.entry i p.mutation) v.world v'.world ∧
        (Landed v'.world s.token p.mutation ∨ retentionApplied s'.head p.mutation = true) ∧ s.token ≤ s'.token)
      (fun _ s' v' => SessionOk config i v'.world s' ∧ s' = { s with stale := s'.stale } ∧
        Quiet config i v.world v'.world)
      (commitRetentionLocked config opts p.previous p.mutation) s v := by
  obtain ⟨t, ho⟩ := h.outstanding p hp
  obtain rfl := ho.token_eq h hsame
  have hc : Committing config i allow s p.mutation v.world := h.committing hactive ho hsame hallow
  have hquiet : ∀ {w'}, After config i s.token (s.entry i p.mutation) v.world w' →
      Quiet config i v.world w' := by
    intro w' ha
    refine ha.quiet h.version ?_
    rw [Encodes.commit_head (c := s.entry i p.mutation) hc.encodes, ho.prepared.nextLSN h.linear, hsame]
  have halone : ∀ {w'}, After config i s.token (s.entry i p.mutation) v.world w' → ∀ q u,
      s.pendingRetention = some q → Outstanding config i v.world s.writerEpoch s.token q u →
      q.resolved = false → Alone i w' u q.mutation := by
    intro w' ha q u hq hou hres
    obtain rfl := Option.mem_unique hp hq
    obtain rfl := hou.token_eq h hsame
    exact (hou.unresolved hres).after ha
  rw [commitRetentionLocked, hsame]
  refine wpS_mono ?_ ?_ (commitLocked_spec confirms_retention hc)
  · intro state s' v' hcom
    refine ⟨hcom.state, ?_, hcom.same, hquiet hcom.after, hcom.after, hcom.sure, hcom.later⟩
    exact h.move hcom.after.onward hcom.same hcom.version hcom.later hcom.active
      (fun k c hk hc hi => absurd hi (hcom.untouched k c hk hc)) (halone hcom.after)
  · intro e s' v' href
    refine ⟨?_, href.same, hquiet href.after⟩
    have hhead : s'.head = s.head := by rw [href.same]
    have htoken : s'.token = s.token := by rw [href.same]
    refine h.move href.after.onward ?_ ?_ ?_ ?_ ?_ (halone href.after)
    · rw [hhead, htoken]
      exact href.same
    · rw [hhead, htoken]
      exact href.after.onward.version h.version
    · exact Nat.le_of_eq htoken.symm
    · rw [hhead]
      exact fun _ => h.active hactive
    · rw [htoken]
      exact (hc.after href.after).own

/-- Resolving makes an outstanding retention durable or fails; it acknowledges nothing. -/
theorem resolveRetentionLocked_spec {opts : EngineOptions} (h : SessionOk config i v.world s)
    (hallow : ∀ p, s.pendingRetention = some p → allow p.previous p.mutation.head) :
    (env config (.session i s.writerEpoch) allow).wpS
      (fun _ s' v' => Resolving config i s v s' v' ∧ (s.stale = false → s'.stale = false) ∧
        s'.pendingRetention = s.pendingRetention.map fun p => { p with resolved := true })
      (fun _ s' v' => Resolving config i s v s' v' ∧ s.pendingRetention.isSome ∧
        s'.pendingRetention = s.pendingRetention)
      (resolveRetentionLocked config opts) s v := by
  have hstart : ∀ {v₁}, Later config i v v₁ → Resolving config i s v s v₁ :=
    fun hl => Beside.resolving ⟨hl, rfl, h.rely hl.rely⟩
  unfold resolveRetentionLocked
  rw [wpS_bind]
  refine wpS_session fun v₁ hr₁ => ?_
  cases hp : s.pendingRetention with
  | none => exact fun v₂ hr₂ => ⟨(hstart (.of_rely hr₁)).rely hr₂, id, hp⟩
  | some p =>
    dsimp only
    split
    · exact fun v₂ hr₂ => ⟨(hstart (.of_rely hr₁)).rely hr₂, rfl, hp⟩
    rename_i hactive
    replace hactive : s.stale = false := by simpa using hactive
    rw [wpS_bind]
    refine wpS_of_aside (wpE_adapt (wpE_mono ?_ ?_ (wpE_reader Reader.checkCtx v₁)))
    · rintro _ v₂ ⟨hl₂, _⟩
      have hl₂ := (Later.of_rely hr₁).trans hl₂
      split
      · -- already resolved
        rename_i hres
        intro v₃ hr₃
        refine ⟨(hstart hl₂).rely hr₃, id, ?_⟩
        rw [hp, Option.map_some, ← hres]
      rename_i hres
      replace hres : p.resolved = false := by simpa using hres
      have hunsettled : ¬ s.Settled := fun hset => by simp [hset p hp] at hres
      rw [wpS_bind]
      refine wpS_tryCatch (wpS_mono ?_ ?_ (refreshActiveLocked_spec (h.rely hl₂.rely)))
      · rintro _ s₁ v₃ ⟨href, hactive₁⟩
        have hres₁ : Resolving config i s v s₁ v₃ :=
          Beside.resolving ⟨hl₂.trans href.later, href.same, href.ok⟩
        have hp₁ : s₁.pendingRetention = some p := by rw [href.same, hp]
        have hepoch : s₁.writerEpoch = s.writerEpoch := by rw [href.same]
        rw [wpS_bind]
        refine wpS_session fun v₄ hr₄ => ?_
        have hok₄ := href.ok.rely hr₄.1
        obtain ⟨t, ho⟩ := hok₄.outstanding p hp₁
        split
        · -- the head read has reached the policy, under the session's own fence
          rename_i happ
          have hland := ho.prepared.landed_of_applied hok₄.linear (ho.unresolved hres) hok₄.version ho.le
            (hok₄.active hactive₁).1 happ
          refine wpS_modify.2 fun v₅ hr₅ => ⟨?_, fun _ => hactive₁, by rw [Option.map_some]⟩
          have hdone := hok₄.resolve ho hland
          exact ⟨hdone.rely hr₅.1, (hres₁.quiet.trans (.of_rely hr₄.1)).trans (.of_rely hr₅.1),
            fun hset => absurd hset hunsettled, by rw [href.same]⟩
        split
        · -- still the head the mutation was prepared for: replay it
          rename_i hsameHead
          have hsame : p.previous = s₁.head := by
            obtain ⟨_, he⟩ := hok₄.encodes
            obtain ⟨k, b, _, hb, hbh⟩ := ho.prepared.version
            exact ((hbh ▸ (hok₄.linear.reachable hb).2).sameHead_iff he).1 hsameHead
          rw [wpS_bind, ← hepoch]
          refine wpS_tryCatch (wpS_mono ?_ ?_ (commitRetentionLocked_spec hok₄ hactive₁ hp₁ hsame (hallow p hp)))
          · rintro state s₂ v₅ ⟨_, hok₂, hsame₂, hquiet, hafter, hsure, hle⟩
            have hp₂ : s₂.pendingRetention = some p := by rw [hsame₂, hp₁]
            have hepoch₂ : s₂.writerEpoch = s₁.writerEpoch := by rw [hsame₂]
            have hres₂ : Resolving config i s v s₂ v₅ :=
              ⟨hok₂, (hres₁.quiet.trans (.of_rely hr₄.1)).trans hquiet, fun hset => absurd hset hunsettled,
                by rw [hsame₂, href.same]⟩
            rw [wpS_bind]
            refine wpS_session fun v₆ hr₆ => ?_
            split
            · exact fun v₇ hr₇ => ⟨(hres₂.rely hr₆).rely hr₇, rfl, hp₂⟩
            · rename_i hactive₂
              replace hactive₂ : s₂.stale = false := by simpa using hactive₂
              obtain ⟨u, ho₂⟩ := hok₂.outstanding p hp₂
              have hland : Landed v₅.world u p.mutation := by
                rcases hsure with hland | happ
                · obtain rfl := ho.token_eq hok₄ hsame
                  obtain ⟨k, b, hu, hb, hbh⟩ := ho₂.prepared.version
                  obtain ⟨k', b', ht, hb', hbh'⟩ := hafter.onward.version ho.prepared.version
                  rw [hu, hok₂.linear.index_eq hb hb' (hbh.trans hbh'.symm), ← ht]
                  exact hland
                · exact ho₂.prepared.landed_of_applied hok₂.linear (ho₂.unresolved hres) hok₂.version ho₂.le
                    (hok₂.active hactive₂).1 happ
              refine wpS_modify.2 fun v₇ hr₇ => ⟨?_, fun _ => hactive₂, by rw [Option.map_some]⟩
              have hr := hr₆.1.trans hr₇.1
              exact ⟨(hok₂.resolve ho₂ hland).rely hr, hres₂.quiet.trans (.of_rely hr),
                fun hset => absurd hset hunsettled, by rw [hsame₂, href.same]⟩
          · rintro e s₂ v₅ ⟨hok₂, hsame₂, hquiet⟩
            intro v₆ hr₆
            refine ⟨⟨hok₂.rely hr₆.1, ?_, fun hset => absurd hset hunsettled, by rw [hsame₂, href.same]⟩, rfl, ?_⟩
            · exact (hres₁.quiet.trans (.of_rely hr₄.1)).trans (hquiet.trans (.of_rely hr₆.1))
            · rw [hsame₂, hp₁]
        · exact fun v₅ hr₅ => ⟨(hres₁.rely hr₄).rely hr₅, rfl, hp₁⟩
      · rintro e s₁ v₃ ⟨hb, _⟩
        intro v₄ hr₄
        refine ⟨Resolving.rely (Beside.resolving ⟨hl₂.trans hb.later, hb.same, hb.ok⟩) hr₄, rfl, ?_⟩
        rw [hb.same, hp]
    · rintro e v₂ ⟨hl₂, _⟩
      exact ⟨hstart ((Later.of_rely hr₁).trans hl₂), rfl, hp⟩

end

end ObjLog.Catengine
