import ObjLog.Catengine.Schedule
/-!
# What the retention calls may be believed

A retention whose outcome a session could not learn stays outstanding until it
is acknowledged, once, by the first retention call that succeeds; until then
the session applies no other policy.

An acknowledged retention is the session's own doing, unless it was committed
without an outstanding record while another writer applied a policy that has
passed it: the test for an applied retention does not tell the two apart.
-/

namespace ObjLog.Catengine

open Lib Catformat Pmeta Blobstore

/-- The result of a retention call that succeeded. -/
def Record.result (r : Record) : Option RetentionApplyResult :=
  match r.reply with
  | .ok (.applied result) => some result
  | .ok (.reconciled result _) => some result
  | _ => none

/-- The call says that it applied the request. -/
def Record.Reports (r : Record) (request : RetentionRequest) : Prop :=
  ∃ result, r.result = some result ∧ result.applied = true ∧ result.request = request

section
variable [Hashes] {config : Config} {σ : State} {i : Pid} {w : World} {r : Record} {s s' : Session} {a b : Nat}
  {rs : List Record} {p : RetentionCommit} {request : RetentionRequest}

/-! ## One call -/

/-- A call on a session with an outstanding retention acknowledges it or leaves it. -/
theorem Told.outstanding (h : Told config i w r) (hp : r.before.pendingRetention = some p) :
    (r.result = none ∧ ∃ res, r.after.pendingRetention = some { p with resolved := res }) ∨
      ∃ result, r.result = some result ∧ Settles config i w r p result := by
  obtain ⟨call, before, start, reply, after, stop, cas, failed⟩ := r
  obtain ⟨_, h⟩ := h
  dsimp only at hp h
  cases call with
  | append segment =>
    rcases reply with e | state | _ | _
    · exact .inl ⟨rfl, h.1.2 p hp⟩
    · exact .inl ⟨rfl, h.1.2 p hp⟩
    · cases h
    · cases h
  | applyPending request found =>
    rw [hp] at h
    rcases reply with e | _ | result | _
    · exact .inl ⟨rfl, p.resolved, h⟩
    · cases h
    · exact .inr ⟨result, rfl, h⟩
    · cases h
  | reconcile =>
    rcases reply with e | _ | _ | ⟨result, found⟩
    · exact .inl ⟨rfl, p.resolved, h.trans hp⟩
    · cases h
    · cases h
    · dsimp only at h
      rw [hp] at h
      exact .inr ⟨result, rfl, h.2⟩

/-- Without one, what the call applies or leaves outstanding is newer than the head. -/
theorem Told.fresh (h : Told config i w r) (hp : r.before.pendingRetention = none) :
    (∀ request, r.Reports request → Newer config w r.start request) ∧
      ∀ q, r.after.pendingRetention = some q → Newer config w r.start q.request := by
  obtain ⟨call, before, start, reply, after, stop, cas, failed⟩ := r
  obtain ⟨_, h⟩ := h
  dsimp only at hp h ⊢
  cases call with
  | append segment =>
    rcases reply with e | state | _ | _
    · exact ⟨fun _ ⟨_, hres, _⟩ => (by cases hres), fun q hq => by rw [h.1.1 hp] at hq; cases hq⟩
    · exact ⟨fun _ ⟨_, hres, _⟩ => (by cases hres), fun q hq => by rw [h.1.1 hp] at hq; cases hq⟩
    · cases h
    · cases h
  | applyPending request found =>
    rw [hp] at h
    rcases reply with e | _ | result | _
    · refine ⟨fun _ ⟨_, hres, _⟩ => (by cases hres), fun q hq => ?_⟩
      by_cases hdet : Determinate e
      · rw [h.1 hdet] at hq
        cases hq
      · obtain ⟨q', hq', hreq, hnew⟩ := h.2 hdet
        obtain rfl := Option.mem_unique hq hq'
        rw [hreq]
        exact hnew
    · cases h
    · refine ⟨?_, fun q hq => by rw [h.1] at hq; cases hq⟩
      rintro request' ⟨_, hres, happ, rfl⟩
      obtain rfl := Option.some.inj hres
      obtain ⟨hreq, hnew, _⟩ := h.2 happ
      rw [hreq]
      exact hnew
    · cases h
  | reconcile =>
    rcases reply with e | _ | _ | ⟨result, found⟩
    · exact ⟨fun _ ⟨_, hres, _⟩ => (by cases hres), fun q hq => by rw [h, hp] at hq; cases hq⟩
    · cases h
    · cases h
    · dsimp only at h
      rw [hp] at h
      refine ⟨?_, fun q hq => by rw [h.2.2] at hq; cases hq⟩
      rintro request' ⟨_, hres, happ, _⟩
      obtain rfl := Option.some.inj hres
      rw [h.2.1] at happ
      cases happ

/-! ## Until the acknowledgement -/

/-- From version `a` on, before `b`, the process applies no policy but the outstanding one. -/
def Withheld (config : Config) (i : Pid) (w : World) (p : RetentionCommit) (a b : Nat) : Prop :=
  ∀ (k : Nat) x y, a ≤ k + 1 → k + 1 < b → w.log[k]? = some x → w.log[k + 1]? = some y → y.author.pid = i →
    y.head config = p.mutation.head ∨
      (y.head config).header.appliedRetentionVersion = (x.head config).header.appliedRetentionVersion

theorem Withheld.join {m : Nat} (h : Withheld config i w p a m) (h' : Withheld config i w p m b) :
    Withheld config i w p a b := by
  intro k x y hk hkb
  rcases Nat.lt_or_ge (k + 1) m with hlt | hge
  · exact h k x y hk hlt
  · exact h' k x y hge hkb

theorem Idle.withheld (h : Idle i w a b) : Withheld config i w p a b :=
  fun k _ y hk hkb _ hy hi => absurd hi (h (k + 1) y hk hkb hy)

theorem During.withheld {res : Bool} (h : During config i w s a b)
    (hp : s.pendingRetention = some { p with resolved := res }) : Withheld config i w p a b :=
  fun k x y hk hkb hx hy hi => h k x y hk hkb hx hy hi { p with resolved := res } hp

/-- As long as no retention call succeeds, the record stays and nothing else is applied. -/
theorem Serves.withheld (h : Serves config i w a s rs b s')
    (hp : ∃ res, s.pendingRetention = some { p with resolved := res }) (hq : ∀ x ∈ rs, x.result = none) :
    (∃ res, s'.pendingRetention = some { p with resolved := res }) ∧
      (∀ x ∈ rs, ∃ res, x.after.pendingRetention = some { p with resolved := res }) ∧ Withheld config i w p a b := by
  induction rs generalizing a s with
  | nil =>
    obtain ⟨rfl, _, hidle⟩ := h
    exact ⟨hp, by simp, hidle.withheld⟩
  | cons x rs ih =>
    obtain ⟨rfl, _, hidle, _, hduring, htold, hrest⟩ := h
    obtain ⟨res, hp⟩ := hp
    obtain ⟨_, hafter⟩ : x.result = none ∧ ∃ res, x.after.pendingRetention = some { p with resolved := res } := by
      rcases htold.outstanding hp with hleft | ⟨result, hres, _⟩
      · exact hleft
      · rw [hq x List.mem_cons_self] at hres
        cases hres
    obtain ⟨hs', hrs, hwith⟩ := ih hrest hafter fun y hy => hq y (List.mem_cons_of_mem _ hy)
    refine ⟨hs', fun y hy => ?_, hidle.withheld.join ((hduring.withheld hp).join hwith)⟩
    rcases List.mem_cons.1 hy with rfl | hy
    · exact hafter
    · exact hrs y hy

/-! ## After the acknowledgement -/

/-- One of the first `a` versions has reached the request's policy. -/
def Reached (config : Config) (w : World) (a : Nat) (request : RetentionRequest) : Prop :=
  ∃ (n : Nat) (c : Commit), n < a ∧ w.log[n]? = some c ∧
    request.policyVersion ≤ (c.head config).header.appliedRetentionVersion

theorem Enacted.reached {stop : Nat} {epoch : UInt64} (hl : Linear config w)
    (h : Enacted config w i stop epoch request) : Reached config w stop request := by
  obtain ⟨n, b, c, m, hn, _, hc, _, heval, hbody, hnew⟩ := h
  obtain ⟨_, hver, hm⟩ := applyRetention_newer heval hnew
  obtain ⟨_, henc⟩ := hl.reachable hc
  rw [← hbody] at henc
  refine ⟨n + 1, c, hn, hc, ?_⟩
  rw [Except.ok.inj ((parse_marshalHead henc.marshal).symm.trans (parse_marshalHead hm)), hver]
  exact UInt64.le_refl _

/-- What is newer than a version at or after it is newer than the request. -/
theorem Reached.lt {start : Nat} {request' : RetentionRequest} (hl : Linear config w)
    (h : Reached config w a request) (hle : a ≤ start) (hn : Newer config w start request') :
    request.policyVersion < request'.policyVersion := by
  obtain ⟨n, c, hna, hc, hver⟩ := h
  obtain ⟨k, d, hk, hd, hlt⟩ := hn
  have hnk : n ≤ k := Nat.le_of_lt_succ (Nat.lt_of_lt_of_le hna (Nat.le_trans hle hk))
  exact UInt64.lt_of_le_of_lt (UInt64.le_trans hver (hl.progress hnk hc hd).retentionVersion) hlt

/-- Once a durable head has reached the policy no later call reports the request. -/
theorem Serves.unreported (hl : Linear config w) (h : Serves config i w a s rs b s')
    (hpast : Reached config w a request)
    (hpend : ∀ q, s.pendingRetention = some q → request.policyVersion < q.request.policyVersion) :
    ∀ y ∈ rs, ¬ y.Reports request := by
  induction rs generalizing a s with
  | nil => simp
  | cons x rs ih =>
    obtain ⟨rfl, hax, _, hle, _, htold, hrest⟩ := h
    have hpast' : Reached config w x.stop request := by
      obtain ⟨n, c, hn, hc⟩ := hpast
      exact ⟨n, c, Nat.lt_of_lt_of_le hn (Nat.le_trans hax hle), hc⟩
    obtain ⟨hself, hafter⟩ : ¬ x.Reports request ∧
        ∀ q, x.after.pendingRetention = some q → request.policyVersion < q.request.policyVersion := by
      cases hp : x.before.pendingRetention with
      | some q =>
        have hlt := hpend q hp
        rcases htold.outstanding hp with ⟨hnone, res, hres⟩ | ⟨result, hres, hset⟩
        · refine ⟨fun ⟨_, hsome, _⟩ => ?_, fun q' hq' => ?_⟩
          · rw [hnone] at hsome
            cases hsome
          · obtain rfl := Option.mem_unique hres hq'
            exact hlt
        · refine ⟨?_, fun q' hq' => ?_⟩
          · rintro ⟨_, hsome, _, rfl⟩
            obtain rfl := Option.mem_unique hres hsome
            rw [hset.request] at hlt
            exact UInt64.lt_irrefl _ hlt
          · rw [hset.after] at hq'
            cases hq'
      | none =>
        obtain ⟨hrep, hq⟩ := htold.fresh hp
        refine ⟨fun hreports => ?_, fun q hqs => hpast.lt hl hax (hq q hqs)⟩
        exact UInt64.lt_irrefl _ (hpast.lt hl hax (hrep request hreports))
    intro y hy
    rcases List.mem_cons.1 hy with rfl | hy
    · exact hself
    · exact ih hrest hpast' hafter y hy

/-! ## Whole runs -/

/-- A retention call that left its outcome open: the request stays outstanding through every later call, its
mutation is durable at most once, and the first retention call that succeeds acknowledges it, the only one to do so. -/
theorem outstanding_retention {earlier later : List Record} {found : Bool} {e : Err} (h : Reaches config σ)
    (hdone : (σ.procs i).done = earlier ++ r :: later) (hcall : r.call = .applyPending request found)
    (hreply : r.reply = .error e) (hopen : e.is .commitIndeterminate = true) : ∃ p, r.after.pendingRetention = some p ∧
      p.request = (r.before.pendingRetention.map (·.request)).getD request ∧
      (∀ (j k : Nat) x y, σ.world.log[j]? = some x → σ.world.log[k]? = some y →
        x.body = p.mutation.headBody → y.body = p.mutation.headBody → j = k) ∧
      ∀ silent rest, later = silent ++ rest → (∀ x ∈ silent, x.result = none) →
        (∀ x ∈ silent, ∃ res, x.after.pendingRetention = some { p with resolved := res }) ∧
        (rest = [] → Withheld config i σ.world p r.stop σ.world.log.length) ∧
        ∀ x rest', rest = x :: rest' → x.result ≠ none →
          x.Reports p.request ∧ Withheld config i σ.world p r.stop x.stop ∧ ∀ y ∈ rest', ¬ y.Reports p.request := by
  have hl := h.ok.1
  have hmem : r ∈ (σ.procs i).done := by
    rw [hdone]
    exact List.mem_append_right _ List.mem_cons_self
  obtain ⟨s, hs⟩ := Mode.session_of_done hmem
  obtain ⟨a, s₀, b, hcalled⟩ := h.called hs
  have hserves := hcalled.serves
  rw [hdone] at hserves
  obtain ⟨htold, _, hlater⟩ := hserves.split
  -- the record the call left
  obtain ⟨p, hp, hreq⟩ : ∃ p, r.after.pendingRetention = some p ∧
      p.request = (r.before.pendingRetention.map (·.request)).getD request := by
    have hdet : ¬ Determinate e := by
      rw [Determinate, hopen]
      exact Bool.noConfusion
    obtain ⟨_, htold⟩ := htold
    rw [hcall, hreply] at htold
    dsimp only at htold
    cases hbefore : r.before.pendingRetention with
    | some q =>
      rw [hbefore] at htold
      exact ⟨q, htold, rfl⟩
    | none =>
      rw [hbefore] at htold
      obtain ⟨q, hq, hqr, _⟩ := htold.2 hdet
      exact ⟨q, hq, hqr⟩
  refine ⟨p, hp, hreq, fun j k x y hx hy hbx hby => ?_, ?_⟩
  · refine hl.index_eq hx hy ?_
    rw [Commit.head, Commit.head, hbx, hby]
  · rintro silent rest rfl hsilent
    have hpend : ∃ res, r.after.pendingRetention = some { p with resolved := res } := ⟨p.resolved, hp⟩
    -- the calls up to the first success, and those after it
    have hsplit : ∃ m t, Serves config i σ.world r.stop r.after silent m t ∧
        Serves config i σ.world m t rest b s := hlater.append
    obtain ⟨m, t, hfirst, hsecond⟩ := hsplit
    obtain ⟨⟨res, ht⟩, hkeep, hwith⟩ := hfirst.withheld hpend hsilent
    refine ⟨hkeep, fun hnil => ?_, fun x rest' hrest hx => ?_⟩
    · subst hnil
      obtain ⟨rfl, _, hidle⟩ := hsecond
      exact hwith.join (hidle.withheld.join (hcalled.during.withheld ht))
    · subst hrest
      obtain ⟨rfl, _, hidle, _, hduring, htold', hafter⟩ := hsecond
      rcases htold'.outstanding ht with ⟨hnone, _⟩ | ⟨result, hres, hset⟩
      · exact absurd hnone hx
      · refine ⟨⟨result, hres, hset.applied, hset.request⟩, hwith.join (hidle.withheld.join (hduring.withheld ht)), ?_⟩
        refine hafter.unreported hl (hset.enacted.reached hl) fun q hq => ?_
        rw [hset.after] at hq
        cases hq

end

/-! ## Runs -/

namespace Sample

def policy : RetentionRequest := ⟨1, 5, 0, 0⟩

def applying : List (Pid × Event) :=
  opens first ++ [(first, .call (.applyPending policy true))] ++ serve first 3

/-- The swap takes effect, its answer is lost and the wait is interrupted; the next call reconciles. -/
def reconciled : State :=
  run (applying ++ [(first, .op .lost), (first, .op .lost), (first, .finish), (first, .call .reconcile)] ++
    serve first 2 ++ [(first, .finish)])

/-- The swap is answered. -/
def enacted : State := run (applying ++ [(first, .op .served), (first, .finish)])

def isOpen : Except Err Reply → Bool
  | .error e => e.is .commitIndeterminate
  | _ => false

theorem open_of {reply : Except Err Reply} (h : isOpen reply = true) :
    ∃ e, reply = .error e ∧ e.is .commitIndeterminate = true := by
  unfold isOpen at h
  split at h
  · exact ⟨_, rfl, h⟩
  · cases h

end Sample

section
set_option maxRecDepth 20000

theorem outstanding_retention_reconciled : letI := Sample.hashes
    ∃ r x, (Sample.reconciled.procs Sample.first).done = [r, x] ∧ x.Reports Sample.policy := by
  let _ := Sample.hashes
  have hreach : Reaches Sample.wide Sample.reconciled := Sample.reaches_run _
  have hmap : (Sample.reconciled.procs Sample.first).done.map (fun r =>
      (decide (r.call = .applyPending Sample.policy true ∧ r.before.pendingRetention = none) && Sample.isOpen r.reply,
        decide (r.result ≠ none))) = [(true, false), (false, true)] := by decide +kernel
  obtain ⟨r, _, hdone, hr, hrest⟩ := List.map_eq_cons_iff.1 hmap
  obtain ⟨x, _, rfl, hx, hnil⟩ := List.map_eq_cons_iff.1 hrest
  obtain rfl := List.map_eq_nil_iff.1 hnil
  rw [Prod.mk.injEq, Bool.and_eq_true, decide_eq_true_eq] at hr
  rw [Prod.mk.injEq, decide_eq_true_eq] at hx
  obtain ⟨⟨⟨hcall, hbefore⟩, hreply⟩, _⟩ := hr
  obtain ⟨e, he, hopen⟩ := Sample.open_of hreply
  obtain ⟨p, _, hreq, _, hlater⟩ := outstanding_retention hreach
    (show _ = [] ++ r :: [x] from hdone) hcall he hopen
  obtain ⟨_, _, hfirst⟩ := hlater [] [x] rfl (by simp)
  rw [hbefore, Option.map_none, Option.getD_none] at hreq
  exact ⟨r, x, hdone, hreq ▸ (hfirst x [] rfl hx.2).1⟩

end

end ObjLog.Catengine
