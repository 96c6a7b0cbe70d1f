import ObjLog.Catengine.Primitives
/-!
# Committing a mutation

`commitLocked` tries to make one mutation the successor of the session's cached
head. Whatever other processes do, the session adds at most that one version
(`After`), the caller is told the mutation's own state, and an error that does
not leave the outcome open means that the mutation is not in the log
(`Refused.unlanded`), as far as the test for an applied mutation can tell.
-/

namespace ObjLog.Catengine

open Lib Env Catformat Pmeta Blobstore

variable [Hashes] {config : Config} {i : Pid} {n k : Nat} {c d : Commit} {allow : Head → Head → Prop} {head : Head}
  {w w' w'' : World} {s s' : Session} {m : Mutation}

/-- The log went on from `w` to `w'`. Process `i` itself added at most `c`, as version `n + 1`. -/
structure After (config : Config) (i : Pid) (n : Nat) (c : Commit) (w w' : World) : Prop where
  linear : Linear config w → Linear config w'
  kept : ∀ (k : Nat) d, w.log[k]? = some d → w'.log[k]? = some d
  own : ∀ (k : Nat) d, w'.log[k]? = some d → d.author.pid = i → w.log[k]? = some d ∨ (k = n ∧ d = c)
  pages : Grows w.pages w'.pages

namespace After

theorem of_rely (h : Rely config i w w') : After config i n c w w' :=
  ⟨h.linear, fun _ _ => h.kept, fun _ _ hd hi => .inl (h.own hd hi), h.pages⟩

theorem trans (h : After config i n c w w') (h' : After config i n c w' w'') : After config i n c w w'' := by
  refine ⟨h'.linear ∘ h.linear, fun k d hd => h'.kept k d (h.kept k d hd), fun k d hd hi => ?_, h.pages.trans h'.pages⟩
  rcases h'.own k d hd hi with hd' | hc
  · exact h.own k d hd' hi
  · exact .inr hc

theorem rely (h : After config i n c w w') (h' : Rely config i w' w'') : After config i n c w w'' :=
  h.trans (.of_rely h')

/-- The process's own commit. -/
theorem commit (hm : Moves config c.author allow w (w.commit c.author c.body)) (hn : n = w.log.length) :
    After config i n c w (w.commit c.author c.body) := by
  refine ⟨hm.linear, fun k d hd => ?_, fun k d hd _ => ?_, hm.pages⟩
  · rw [World.commit, List.getElem?_append_left (List.getElem?_eq_some_iff.1 hd).1]
    exact hd
  · rcases Nat.lt_or_ge k w.log.length with hlt | hge
    · rw [World.commit, List.getElem?_append_left hlt] at hd
      exact .inl hd
    · have hlen := (List.getElem?_eq_some_iff.1 hd).1
      simp only [World.commit, List.length_append, List.length_singleton] at hlen
      obtain rfl : k = w.log.length := by omega
      rw [World.commit, List.getElem?_concat_length] at hd
      exact .inr ⟨hn.symm, (Option.some.inj hd).symm⟩

end After

/-! ## The mutation under way -/

/-- The mutation is the version after the `n`th. -/
def Landed (w : World) (n : Nat) (m : Mutation) : Prop := ∃ c, w.log[n]? = some c ∧ c.body = m.headBody

/-- The session `s` of process `i` is about to commit `m`, a mutation of its cached head. -/
structure Committing (config : Config) (i : Pid) (allow : Head → Head → Prop) (s : Session)
    (m : Mutation) (w : World) : Prop where
  linear : Linear config w
  version : Version config w s.token s.head
  mutates : Mutates config w.pages (.session i s.writerEpoch) s.head m
  allowed : allow s.head m.head
  active : s.head.header.writerEpoch = s.writerEpoch ∧ s.head.header.writerID = s.writerID
  own : ∀ k c, s.token ≤ k → w.log[k]? = some c → c.author.pid = i → k = s.token

/-- The commit `s` tries to add. -/
abbrev Session.entry (s : Session) (i : Pid) (m : Mutation) : Commit := ⟨.session i s.writerEpoch, m.headBody⟩

/-- The surroundings of a call of the session. -/
abbrev Session.env (s : Session) (config : Config) (i : Pid) (allow : Head → Head → Prop) : Env View Op Op.Answer :=
  Catengine.env config (.session i s.writerEpoch) allow

namespace Committing

variable (h : Committing config i allow s m w)
include h

theorem after (ha : After config i s.token (s.entry i m) w w') : Committing config i allow s m w' := by
  refine ⟨ha.linear h.linear, ?_, h.mutates.mono ha.pages, h.allowed, h.active, fun k c hk hc hi => ?_⟩
  · obtain ⟨n, c, ht, hc, hh⟩ := h.version
    exact ⟨n, c, ht, ha.kept n c hc, hh⟩
  · rcases ha.own k c hc hi with hc | ⟨hk', _⟩
    · exact h.own k c hk hc hi
    · exact hk'

theorem reachable : Reachable config w.pages s.head := by
  obtain ⟨n, c, _, hc, hh⟩ := h.version
  rw [← hh]
  exact (h.linear.reachable hc).1

theorem encodes : Encodes config m.head m.headBody := h.mutates.encodes h.reachable

theorem token_le : s.token ≤ w.log.length := by
  obtain ⟨n, c, ht, hc, _⟩ := h.version
  rw [ht]
  exact (List.getElem?_eq_some_iff.1 hc).1

/-- The fence stays the session's. -/
theorem fence : m.head.header.writerEpoch = s.writerEpoch ∧ m.head.header.writerID = s.writerID ∧ s.writerID = i := by
  obtain ⟨he, hid⟩ := h.active
  rcases h.mutates.fence h.reachable with ⟨hop, _⟩ | ⟨_, hep, hsame, hown⟩
  · cases hop
  · exact ⟨hep.trans he, hsame.trans hid, hid.symm.trans hown⟩

/-- Swapping the cached version for the mutation extends the chain by one mutation. -/
theorem moves (ht : s.token = w.log.length) :
    Moves config (.session i s.writerEpoch) allow w (w.commit (.session i s.writerEpoch) m.headBody) := by
  obtain ⟨n, c, htoken, hc, hh⟩ := h.version
  have hlast : w.log.getLast? = some c := by
    rw [List.getLast?_eq_getElem?, ← ht, htoken]
    exact hc
  refine ⟨fun hl => hl.commit ?_ ?_, .inr ⟨s.entry i m, rfl, rfl, ?_⟩, Grows.refl _⟩
  · intro hnil
    rw [hnil] at hc
    cases hc
  · intro b hb
    obtain rfl := Option.mem_unique hlast hb
    exact ⟨m, hh ▸ h.mutates, rfl⟩
  · intro b hb
    obtain rfl := Option.mem_unique hlast hb
    rw [hh, Encodes.commit_head (c := s.entry i m) h.encodes]
    exact h.allowed

/-- Only the session itself commits its mutation. -/
theorem own_of_body (hk : s.token ≤ k) (hc : w.log[k]? = some c) (hb : c.body = m.headBody) : c.author.pid = i := by
  obtain ⟨n, d, htoken, _⟩ := h.version
  obtain ⟨k, rfl⟩ : ∃ k', k = k' + 1 := Nat.exists_eq_succ_of_ne_zero (by
    rintro rfl
    rw [htoken] at hk
    exact absurd hk (Nat.not_succ_le_zero n))
  have howner := h.linear.owner hc
  have henc := h.encodes
  rw [← hb] at henc
  rw [henc.commit_head, h.fence.2.1, h.fence.2.2] at howner
  exact howner.symm

theorem landed_of_body (hk : s.token ≤ k) (hc : w.log[k]? = some c)
    (hb : c.body = m.headBody) : Landed w s.token m := by
  have hown := h.own_of_body hk hc hb
  rw [← h.own k c hk hc hown]
  exact ⟨c, hc, hb⟩

theorem untouched (hlt : s.token < k) : Untouched i w k := by
  intro j c hj hc hi
  have hj' := h.own j c (Nat.le_of_lt (Nat.lt_of_lt_of_le hlt hj)) hc hi
  exact absurd (Nat.lt_of_lt_of_le hlt (hj' ▸ hj)) (Nat.lt_irrefl _)

/-- A version the session has not added beyond is not its mutation. -/
theorem not_landed (hu : Untouched i w s.token) : ¬ Landed w s.token m := by
  rintro ⟨c, hc, hb⟩
  exact hu s.token c (Nat.le_refl _) hc (h.own_of_body (Nat.le_refl _) hc hb)

end Committing

/-! ## Small steps of a session call -/

section
variable {α : Type} {author : Author} {v : View} {F : Err → Session → View → Prop}

theorem wpS_ofExcept {x : Except Err α} {a : α} {Q : α → Session → View → Prop} (hx : x = .ok a)
    (h : ∀ v', (env config author allow).rely v v' → Q a s v') :
    (env config author allow).wpS Q F (ofExcept x) s v := by
  rw [hx]
  exact h

theorem wpS_observe {Q : Unit → Session → View → Prop}
    (h : ∀ v', (env config author allow).rely v v' → Q () (s.observe head) v') :
    (env config author allow).wpS Q F (observeFence head) s v := h

theorem wpS_setHead {token : Token} {Q : Unit → Session → View → Prop}
    (h : ∀ v', (env config author allow).rely v v' → Q () { s with head := head, token := token } v') :
    (env config author allow).wpS Q F (setHead head token) s v := h

theorem wpS_session {Q : Session → Session → View → Prop} (h : ∀ v', (env config author allow).rely v v' → Q s s v') :
    (env config author allow).wpS Q F (getThe Session) s v := h

theorem wpS_of_aside {x : M α} {Q : α → Session → View → Prop}
    (h : (env config author allow).wpE (fun a => Q a s) (fun e => F e s) x v) :
    (env config author allow).wpS Q F (aside x) s v := wpS_aside h

end

omit [Hashes] in
theorem Session.observe_same (s : Session) (head : Head) : s.observe head = { s with stale := (s.observe head).stale } := by
  unfold Session.observe
  split <;> rfl

omit [Hashes] in
/-- A session that is not stale has seen only heads under its own fence. -/
theorem Session.observe_active (h : (s.observe head).stale = false) :
    s.stale = false ∧ head.header.writerEpoch = s.writerEpoch ∧ head.header.writerID = s.writerID := by
  unfold Session.observe at h
  split at h
  · cases h
  · rename_i hfence
    simp only [not_or, not_not, ne_eq] at hfence
    exact ⟨h, hfence⟩

/-! ## Outcomes -/

/-- What the test for an applied mutation tells. A positive answer about `h` says `Sure h`. A negative one says
that the mutation is not in the log, as far as `Cond` holds; where `Cond` holds there is an answer. -/
structure Confirms (config : Config) (i : Pid) (allow : Head → Head → Prop) (s : Session)
    (m : Mutation) (applied : Head → M Bool) (Cond : View → Prop) (Sure : Head → View → Prop) : Prop where
  antitone : ∀ v v', (env config (.session i s.writerEpoch) allow).rely v v' → Cond v' → Cond v
  stable : ∀ head v v', (env config (.session i s.writerEpoch) allow).rely v v' → Sure head v → Sure head v'
  spec : ∀ (v : View) (n : Nat) (c : Commit), Committing config i allow s m v.world → v.world.log[n]? = some c →
    s.token ≤ n + 1 → (env config (.session i s.writerEpoch) allow).wpE
      (fun ok v' => Later config i v v' ∧ (ok = true → Sure (c.head config) v') ∧
        (ok = false → s.token ≤ n → Cond v' → ¬ Landed v'.world s.token m))
      (fun _ v' => Later config i v v' ∧ ¬ Cond v') (applied (c.head config)) v

/-- A commit that succeeded, started in `v₀`. -/
structure Committed (config : Config) (i : Pid) (s : Session) (m : Mutation)
    (Sure : Head → View → Prop) (v₀ : View) (state : PartitionHead) (s' : Session) (v : View) : Prop where
  state : state = config.publicState m.head
  same : s' = { s with head := s'.head, token := s'.token, stale := s'.stale }
  version : Version config v.world s'.token s'.head
  later : s.token ≤ s'.token
  untouched : Untouched i v.world s'.token
  active : s'.stale = false → s'.head.header.writerEpoch = s.writerEpoch ∧ s'.head.header.writerID = s.writerID
  sure : Landed v.world s.token m ∨ Sure s'.head v
  after : After config i s.token (s.entry i m) v₀.world v.world

/-- A commit that returned an error. -/
structure Refused (config : Config) (i : Pid) (s : Session) (m : Mutation) (Cond : View → Prop)
    (v₀ : View) (e : Err) (s' : Session) (v : View) : Prop where
  same : s' = { s with stale := s'.stale }
  after : After config i s.token (s.entry i m) v₀.world v.world
  unlanded : Determinate e → Cond v → ¬ Landed v.world s.token m

section
variable {applied : Head → M Bool} {Cond : View → Prop} {Sure : Head → View → Prop} {v₀ v v' : View} {e : Err}
  {state : PartitionHead}

theorem Committing.rely (h : Committing config i allow s m w) (hr : Rely config i w w') :
    Committing config i allow s m w' := h.after (.of_rely hr)

/-- Others do not land the mutation. -/
theorem Committing.landed_rely (h : Committing config i allow s m w)
    (hr : Rely config i w w') : Landed w' s.token m ↔ Landed w s.token m := by
  constructor
  · rintro ⟨c, hc, hb⟩
    exact ⟨c, hr.own hc ((h.rely hr).own_of_body (Nat.le_refl _) hc hb), hb⟩
  · rintro ⟨c, hc, hb⟩
    exact ⟨c, hr.kept hc, hb⟩

/-- The conflict and stale exits after a negative test. -/
theorem Refused.of_negative
    (hc : Confirms config i allow s m applied Cond Sure) (h : Committing config i allow s m v.world)
    (ha : After config i s.token (s.entry i m) v₀.world v.world) {s' : Session}
    (hsame : s' = { s with stale := s'.stale }) (hno : Cond v → ¬ Landed v.world s.token m)
    (hr : (s.env config i allow).rely v v') :
    Refused config i s m Cond v₀ e s' v' :=
  ⟨hsame, ha.rely hr.1, fun _ hcond => mt (h.landed_rely hr.1).1 (hno (hc.antitone v v' hr hcond))⟩

/-- The exits that adopt an observed head. -/
theorem Committed.of_seen (ha : After config i s.token (s.entry i m) v₀.world v.world)
    (hn : v.world.log[n]? = some c) (hlt : s.token ≤ n + 1) (hu : Untouched i v.world (n + 1))
    (hsure : Landed v.world s.token m ∨ Sure (c.head config) v) :
    Committed config i s m Sure v₀ (config.publicState m.head)
      { s.observe (c.head config) with head := c.head config, token := n + 1 } v where
  state := rfl
  same := by rw [s.observe_same]
  version := ⟨n, c, rfl, hn, rfl⟩
  later := hlt
  untouched := hu
  active hactive := (Session.observe_active hactive).2
  sure := hsure
  after := ha

theorem Committed.rely (hc : Confirms config i allow s m applied Cond Sure)
    (hm : Committing config i allow s m v.world) (h : Committed config i s m Sure v₀ state s' v)
    (hr : (s.env config i allow).rely v v') : Committed config i s m Sure v₀ state s' v' where
  state := h.state
  same := h.same
  version := h.version.rely hr.1
  later := h.later
  untouched := h.untouched.rely hr.1
  active := h.active
  sure := h.sure.imp (hm.landed_rely hr.1).2 (hc.stable _ v v' hr)
  after := h.after.rely hr.1

section
variable (hc : Confirms config i allow s m applied Cond Sure) (h : Committing config i allow s m v.world) (ha : After config i s.token (s.entry i m) v₀.world v.world)
include hc h ha

/-- A refused swap shows a later head: the loop ends there. -/
theorem settle_spec (hn : v.world.log[n]? = some c)
    (hlt : s.token ≤ n) (last : Bool) : (s.env config i allow).wpS
      (fun r s' v' => ∃ state, r = some state ∧ Committed config i s m Sure v₀ state s' v')
      (Refused config i s m Cond v₀) (settle config s.head m applied ⟨c.body, n + 1⟩ last) s v := by
  have henc := (h.linear.reachable hn).2
  unfold settle
  rw [wpS_bind]
  refine wpS_ofExcept henc.decode fun v₁ hr₁ => ?_
  rw [wpS_bind]
  refine wpS_observe fun v₂ hr₂ => ?_
  rw [wpS_bind]
  have hr₂ := (s.env config i allow).trans hr₁ hr₂
  have h₂ := h.rely hr₂.1
  refine wpS_of_aside (wpE_mono ?_ ?_ (hc.spec v₂ n c h₂ (hr₂.1.kept hn) (Nat.le_succ_of_le hlt)))
  · rintro ok v₃ ⟨hlater, hyes, hno⟩
    have hr₃ := hr₂.1.trans hlater.rely
    have h₃ := h.rely hr₃
    have ha₃ := ha.rely hr₃
    have hn₃ := hr₃.kept hn
    have hseen : ∀ {v₄}, (s.env config i allow).rely v₃ v₄ →
        (Landed v₃.world s.token m ∨ Sure (c.head config) v₃) →
        Committed config i s m Sure v₀ (config.publicState m.head)
          { s.observe (c.head config) with head := c.head config, token := n + 1 } v₄ := by
      intro v₄ hr₄ hsure
      exact (Committed.of_seen ha₃ hn₃ (Nat.le_succ_of_le hlt) (h₃.untouched (Nat.lt_succ_of_le hlt)) hsure).rely
        hc h₃ hr₄
    split
    · -- the head holds the very bytes of the mutation
      rename_i hbody
      have hhead : c.head config = m.head := by
        have hm := h.encodes
        rw [← show c.body = m.headBody from hbody] at hm
        exact hm.commit_head
      rw [wpS_bind]
      refine wpS_setHead fun v₄ hr₄ => ?_
      rw [wpS_bind]
      refine wpS_ofExcept (a := config.publicState m.head) ?_ fun v₅ hr₅ v₆ hr₆ => ⟨_, rfl, ?_⟩
      · rw [henc.partitionHead, hhead]
      · exact hseen ((env _ _ _).trans hr₄ ((env _ _ _).trans hr₅ hr₆)) (.inl (h₃.landed_of_body hlt hn₃ hbody))
    split
    · -- the test found it applied
      rename_i hok
      rw [wpS_bind]
      refine wpS_setHead fun v₄ hr₄ => ?_
      rw [wpS_bind]
      refine wpS_ofExcept h.encodes.partitionHead fun v₅ hr₅ v₆ hr₆ => ⟨_, rfl, ?_⟩
      exact hseen ((env _ _ _).trans hr₄ ((env _ _ _).trans hr₅ hr₆)) (.inr (hyes hok))
    · rename_i hok
      have hneg : Cond v₃ → ¬ Landed v₃.world s.token m := hno (by simpa using hok) hlt
      have hexit : ∀ {e v₄}, (s.env config i allow).rely v₃ v₄ →
          Refused config i s m Cond v₀ e (s.observe (c.head config)) v₄ :=
        fun hr₄ => .of_negative hc h₃ ha₃ (s.observe_same _) hneg hr₄
      rw [wpS_bind]
      refine wpS_session fun v₄ hr₄ => ?_
      split
      · exact fun v₅ hr₅ => hexit ((env _ _ _).trans hr₄ hr₅)
      · -- a later head is not the one the mutation was built on
        have hdiff : sameHead s.head (c.head config) = false := by
          obtain ⟨k, b, hk, hb, hhead⟩ := h.version
          have hbe := (h.linear.reachable hb).2
          rw [Bool.eq_false_iff, ← hhead]
          intro hsame
          have hkn := h.linear.index_eq hb hn ((hbe.sameHead_iff henc).1 hsame)
          rw [hk, hkn] at hlt
          exact absurd hlt (Nat.not_succ_le_self n)
        rw [hdiff]
        exact fun v₅ hr₅ => hexit ((env _ _ _).trans hr₄ hr₅)
  · rintro e v₃ ⟨hlater, hcond⟩
    exact ⟨s.observe_same _, ha.rely (hr₂.1.trans hlater.rely), fun _ hyes => absurd hyes hcond⟩

/-- After the last attempt the head is read once more. -/
theorem commitUnanswered_spec (lastErr : Option Err) :
    (s.env config i allow).wpS (Committed config i s m Sure v₀)
      (Refused config i s m Cond v₀) (commitUnanswered config s.head m applied lastErr) s v := by
  unfold commitUnanswered
  rw [wpS_bind]
  refine wpS_of_aside (wpE_adapt (wpE_mono ?_ ?_ (wpE_load h.linear)))
  · rintro ⟨observed, token⟩ v₁ ⟨hlater, hu, hlen, hversion⟩
    obtain ⟨n, c, rfl, hn, rfl⟩ : Version config v₁.world token observed := by
      refine hversion.resolve_right fun hzero => ?_
      obtain ⟨k, _, hk, _⟩ := h.version
      have htoken := Nat.le_trans h.token_le hlen
      rw [hk, hzero.1] at htoken
      exact absurd htoken (Nat.not_succ_le_zero k)
    have hlt : s.token ≤ n + 1 := Nat.le_trans h.token_le hlen
    rw [wpS_bind]
    refine wpS_observe fun v₂ hr₂ => ?_
    rw [wpS_bind]
    have hrely₂ := hlater.rely.trans hr₂.1
    refine wpS_of_aside (wpE_mono ?_ ?_ (hc.spec v₂ n c (h.rely hrely₂) (hr₂.1.kept hn) hlt))
    · rintro ok v₃ ⟨hlater₃, hyes, hno⟩
      have hrely₃ := hrely₂.trans hlater₃.rely
      have h₃ := h.rely hrely₃
      have ha₃ := ha.rely hrely₃
      have hu₃ := (hu.rely hr₂.1).rely hlater₃.rely
      split
      · rename_i hok
        rw [wpS_bind]
        refine wpS_setHead fun v₄ hr₄ => ?_
        refine wpS_ofExcept h.encodes.partitionHead fun v₅ hr₅ => ?_
        exact (Committed.of_seen ha₃ (hlater₃.rely.kept (hr₂.1.kept hn)) hlt hu₃ (.inr (hyes hok))).rely hc h₃
          ((env _ _ _).trans hr₄ hr₅)
      · rename_i hok
        have hneg : Cond v₃ → ¬ Landed v₃.world s.token m := by
          intro hcond
          rcases Nat.lt_or_eq_of_le hlt with hlt | heq
          · exact hno (by simpa using hok) (Nat.le_of_lt_succ hlt) hcond
          · exact h₃.not_landed (heq ▸ hu₃)
        have hexit : ∀ {e v₄}, (s.env config i allow).rely v₃ v₄ →
            Refused config i s m Cond v₀ e (s.observe (c.head config)) v₄ :=
          fun hr₄ => .of_negative hc h₃ ha₃ (s.observe_same _) hneg hr₄
        rw [wpS_bind]
        refine wpS_session fun v₄ hr₄ => ?_
        split
        · exact fun v₅ hr₅ => hexit ((env _ _ _).trans hr₄ hr₅)
        · split
          · exact fun v₅ hr₅ => hexit ((env _ _ _).trans hr₄ hr₅)
          · exact fun v₅ hr₅ => hexit ((env _ _ _).trans hr₄ hr₅)
    · rintro e v₃ ⟨hlater₃, hcond⟩
      exact ⟨s.observe_same _, ha.rely (hrely₂.trans hlater₃.rely), fun _ hyes => absurd hyes hcond⟩
  · rintro e v₁ ⟨hlater, _⟩
    refine ⟨rfl, ha.rely hlater.rely, fun hdet => ?_⟩
    simp [Determinate, Err.is, Err.ofWithin] at hdet

end

/-- However a swap of the session's head ends, it added the session's mutation or nothing. -/
theorem Committing.swapped {a : Except Err (Object × Bool)} (h : Committing config i allow s m w)
    (hsw : Swapped config (.session i s.writerEpoch) w s.token m.headBody a w') :
    After config i s.token (s.entry i m) w w' := by
  cases hsw with
  | landed hu heq hr _ =>
    exact ((After.of_rely hu).trans (.commit ((h.rely hu).moves heq) heq)).rely hr
  | refused hu _ hr => exact .of_rely (hu.trans hr)
  | unanswered hr _ => exact .of_rely hr

theorem Swapped.of_true {object : Object}
    (hsw : Swapped config (.session i s.writerEpoch) w s.token m.headBody (.ok (object, true)) w') :
    Landed w' s.token m ∧ object = ⟨m.headBody, s.token + 1⟩ := by
  generalize ha : Except.ok (object, true) = a at hsw
  cases hsw with
  | @landed u _ _ _ heq hr hanswer =>
    refine ⟨⟨s.entry i m, hr.kept ?_, rfl⟩, ?_⟩
    · rw [World.commit, heq, List.getElem?_concat_length]
    · rcases hanswer with rfl | ⟨e, _, rfl⟩
      · cases ha
        rfl
      · cases ha
  | refused _ _ _ => cases ha
  | unanswered _ _ => cases ha

/-- A refused swap answers with a later version. -/
theorem Committing.swapped_refused {object : Object} (h : Committing config i allow s m w)
    (hsw : Swapped config (.session i s.writerEpoch) w s.token m.headBody (.ok (object, false)) w') :
    ∃ n c, w'.log[n]? = some c ∧ s.token ≤ n ∧ object = ⟨c.body, n + 1⟩ := by
  generalize ha : Except.ok (object, false) = a at hsw
  cases hsw with
  | landed _ _ _ hanswer =>
    rcases hanswer with rfl | ⟨e, _, rfl⟩
    · cases ha
    · cases ha
  | @refused u _ hu hne hr =>
    have hu' := h.rely hu
    obtain ⟨n, c, hlen, hc, hcur⟩ := World.exists_last hu'.version.ne_nil
    refine ⟨n, c, hr.kept hc, ?_, ?_⟩
    · have htoken := hu'.token_le
      rw [hlen] at htoken hne
      exact Nat.le_of_lt_succ (Nat.lt_of_le_of_ne htoken hne)
    · rw [hcur] at ha
      cases ha
      rfl
  | unanswered _ _ => cases ha

theorem commitBackoff_spec {lastErr : Option Err} (ha : After config i s.token (s.entry i m) v₀.world v.world) :
    (s.env config i allow).wpS
      (fun _ s' v' => s' = s ∧ After config i s.token (s.entry i m) v₀.world v'.world)
      (Refused config i s m Cond v₀) (commitBackoff config lastErr) s v := by
  unfold commitBackoff
  refine wpS_of_aside (wpE_adapt (wpE_mono ?_ ?_ wpE_waitBackoff))
  · intro _ v₁ hlater
    exact ⟨rfl, ha.rely hlater.rely⟩
  · intro e v₁ hlater
    refine ⟨rfl, ha.rely hlater.rely, fun hdet => ?_⟩
    simp [Determinate, Err.is, Err.ofWithin] at hdet

/-- The loop over attempts. The session keeps its cached head until the loop ends. -/
theorem commitLoop_spec (hc : Confirms config i allow s m applied Cond Sure)
    (attempts : Nat) (lastErr : Option Err) (h₀ : Committing config i allow s m v₀.world)
    (ha : After config i s.token (s.entry i m) v₀.world v.world) :
    (s.env config i allow).wpS (Committed config i s m Sure v₀)
      (Refused config i s m Cond v₀) (commitLoop config s.head m applied attempts s.token lastErr) s v := by
  induction attempts generalizing lastErr v with
  | zero => exact commitUnanswered_spec hc (h₀.after ha) ha lastErr
  | succ attempts ih =>
    have h := h₀.after ha
    unfold commitLoop
    rw [wpS_bind]
    refine wpS_of_aside (wpE_liftProg (wp_mono ?_ (wp_cas fun u hu heq => (h.rely hu).moves heq)))
    rintro a v₁ ⟨hsw, _⟩
    have ha₁ := ha.trans (h.swapped hsw)
    have h₁ := h.after (h.swapped hsw)
    rcases a with casErr | ⟨object, swapped⟩
    · dsimp only
      rw [wpS_bind]
      split
      · intro v₂ hr₂
        exact ih (some casErr) (ha₁.rely hr₂.1)
      · refine wpS_mono ?_ (fun _ _ _ he => he) (commitBackoff_spec ha₁)
        rintro _ _ v₂ ⟨rfl, ha₂⟩
        exact ih (some casErr) ha₂
    · cases swapped with
      | true =>
        obtain ⟨hlanded, rfl⟩ := hsw.of_true
        rw [wpS_bind]
        refine wpS_setHead fun v₂ hr₂ => ?_
        refine wpS_ofExcept h.encodes.partitionHead fun v₃ hr₃ => ?_
        have hr := hr₂.1.trans hr₃.1
        obtain ⟨c, hc', hb⟩ := hlanded
        refine ⟨rfl, rfl, ⟨s.token, c, rfl, hr.kept hc', ?_⟩, Nat.le_succ _, (h₁.untouched (Nat.lt_succ_self _)).rely hr,
          fun _ => ⟨h.fence.1, h.fence.2.1⟩, .inl ⟨c, hr.kept hc', hb⟩, ha₁.rely hr⟩
        have henc := h.encodes
        rw [← hb] at henc
        exact henc.commit_head
      | false =>
        obtain ⟨n, c, hn, hlt, rfl⟩ := h.swapped_refused hsw
        dsimp only
        rw [wpS_bind]
        refine wpS_mono ?_ (fun _ _ _ he => he) (settle_spec hc h₁ ha₁ hn hlt _)
        rintro r s' v₂ ⟨state, rfl, hcommitted⟩
        intro v₃ hr₃
        exact hcommitted.rely hc (h₀.after hcommitted.after) hr₃

theorem commitLocked_spec {opts : EngineOptions}
    (hc : Confirms config i allow s m applied Cond Sure) (h : Committing config i allow s m v.world) :
    (s.env config i allow).wpS (Committed config i s m Sure v)
      (Refused config i s m Cond v) (commitLocked config opts s.head m applied) s v := by
  unfold commitLocked
  rw [wpS_bind]
  exact wpS_session fun v₁ hr₁ => commitLoop_spec hc _ none h (.of_rely hr₁.1)

end

end ObjLog.Catengine
