import ObjLog.Catengine.Sessions
/-!
# Opening a partition among others

`Initialize` starts the log or leaves it alone. `OpenWriter` takes the fence
over; the session it returns owns an epoch that its own process acquired
(`openWriter_spec`), also where it learned of its takeover only from a later
read.
-/

namespace ObjLog.Catengine

open Lib Env Catformat Pmeta Blobstore

variable {lastErr : Option Err}

variable [Hashes] {config : Config} {i : Pid} {n k : Nat} {c : Commit} {allow : Head → Head → Prop}
  {w w' : World} {v : View} {head : Head} {token : Token} {m : Mutation}

/-! ## Where an epoch comes from -/

theorem newHead_epoch {next : UInt64} {body : Bytes} (h : newHead config next = .ok (head, body)) :
    head.header.writerEpoch = 0 := by
  simp only [newHead, checks_ok] at h
  obtain ⟨_, _, _, rfl, _⟩ := h
  rfl

/-- Every head after the first takeover carries the fence of an opener. -/
theorem Linear.acquired (h : Linear config w) (hc : w.log[n]? = some c)
    (hpos : (c.head config).header.writerEpoch ≠ 0) : ∃ k d pid, k ≤ n ∧ w.log[k]? = some d ∧ d.author = .opener pid ∧
      (d.head config).header.writerEpoch = (c.head config).header.writerEpoch ∧
      (c.head config).header.writerID = pid := by
  induction n generalizing c with
  | zero =>
    obtain ⟨head, hs⟩ := h.first c hc
    obtain ⟨_, henc⟩ : Reachable config w.pages head ∧ Encodes config head c.body := hs.reachable
    rw [henc.commit_head] at hpos ⊢
    generalize hbody : c.body = body at hs henc
    generalize hauthor : c.author = author at hs
    cases hs with
    | created hn => exact absurd (newHead_epoch hn) hpos
    | @taken pid head₀ body₀ m hn ht =>
      refine ⟨0, c, pid, Nat.le_refl _, hc, hauthor, ?_, ?_⟩
      · rw [Encodes.commit_head (hbody ▸ henc)]
      · rw [(takeover_ok ht).1.eq]
  | succ n ih =>
    obtain ⟨b, hb⟩ := World.exists_le (Nat.le_succ n) hc
    obtain ⟨m, hm, hhead, _⟩ := h.step hb hc
    rcases hm.fence (h.reachable hb).1 with ⟨hop, _, hid⟩ | ⟨_, hepoch, hid, _⟩
    · rw [hhead] at hid
      exact ⟨n + 1, c, c.author.pid, Nat.le_refl _, hc, hop, rfl, hid⟩
    · -- a session's mutation keeps the fence
      rw [hhead] at hepoch hid
      rw [hepoch] at hpos
      obtain ⟨k, d, pid, hk, hd, hauthor, hde, hcid⟩ := ih hb hpos
      exact ⟨k, d, pid, Nat.le_succ_of_le hk, hd, hauthor, hde.trans hepoch.symm, hid.trans hcid⟩

/-- A session made from a version under the process's own fence. -/
theorem SessionOk.new (hl : Linear config w) (hv : Version config w token head)
    (hid : head.header.writerID = i) (hpos : head.header.writerEpoch ≠ 0) (hu : Untouched i w token) :
    SessionOk config i w (newSession head token) := by
  refine ⟨hl, hid, hv, ?_, fun _ => ⟨rfl, rfl⟩, fun k c hk hc hi => absurd hi (hu k c hk hc), fun h => (by cases h),
    fun p hp => by cases hp⟩
  obtain ⟨n, c, rfl, hc, rfl⟩ := hv
  obtain ⟨k, d, pid, hk, hd, hauthor, hepoch, hcid⟩ := hl.acquired hc hpos
  rw [hid] at hcid
  obtain rfl := hcid
  exact ⟨k, d, Nat.lt_succ_of_le hk, hd, hauthor, hepoch⟩

/-! ## Initialize -/

theorem initializePartition_spec (next : UInt64) : (env config (.initializer i) allow).wpE (fun _ _ => True)
    (fun _ _ => True) (initializePartition config next) v := by
  unfold initializePartition
  rw [wpE_bind]
  refine wpE_mono ?_ (fun _ _ _ => trivial) (wpE_reader Reader.checkCtx v)
  rintro _ v₁ _
  rw [wpE_bind]
  refine wpE_lift (fun r hr v₂ _ => ?_) (fun _ _ _ _ => trivial)
  obtain ⟨head, body⟩ := r
  rw [wpE_bind]
  -- the swap expects that there is no head yet
  refine wp_mono ?_ (wp_cas fun u _ hnil => ?_)
  · rintro (e | ⟨object, swapped⟩) v₃ _
    · trivial
    · change (env config (.initializer i) allow).wpE _ _ _ v₃
      dsimp only
      rw [wpE_bind]
      refine wpE_mono (Q := fun _ _ => True) (F := fun _ _ => True) (fun head v₄ _ => ?_) (fun _ _ _ => trivial) ?_
      · rw [wpE_bind]
        exact wpE_lift (fun _ _ _ _ => wpE_pure.2 fun _ _ => trivial) (fun _ _ _ _ => trivial)
      · split
        · exact wpE_pure.2 fun _ _ => trivial
        · exact wpE_lift (fun _ _ _ _ => trivial) (fun _ _ _ _ => trivial)
  · have hlog : u.log = [] := List.length_eq_zero_iff.1 hnil.symm
    refine ⟨fun hl => hl.commit (fun _ => ⟨head, .created hr⟩) (fun b hb => ?_), .inr ⟨⟨.initializer i, body⟩, rfl, rfl,
      fun b hb => ?_⟩, Grows.refl _⟩
    all_goals
      rw [hlog] at hb
      cases hb

/-! ## OpenWriter -/

/-- What `Load` returned: a version, or the head of a partition without one. -/
def Known (config : Config) (w : World) (head : Head) (token : Token) : Prop :=
  Version config w token head ∨ (token = 0 ∧ ∃ body, newHead config 0 = .ok (head, body))

/-- The process has committed no version after the one it is about to replace. -/
def Behind (i : Pid) (w : World) (token : Token) : Prop := ∀ (k : Nat) c, w.log[k]? = some c → c.author.pid = i → k ≤ token

theorem Known.rely (h : Known config w head token) (hr : Rely config i w w') : Known config w' head token :=
  h.imp_left (·.rely hr)

theorem Known.after {d : Commit} (h : Known config w head token) (ha : After config i n d w w') :
    Known config w' head token := h.imp_left ha.onward.version

theorem Known.token_le (h : Known config w head token) : token ≤ w.log.length := by
  rcases h with ⟨n, c, rfl, hc, _⟩ | ⟨rfl, _⟩
  · exact (List.getElem?_eq_some_iff.1 hc).1
  · exact Nat.zero_le _

theorem Behind.after {d : Commit} (h : Behind i w token) (ha : After config i token d w w') : Behind i w' token := by
  intro k c hc hi
  rcases ha.own k c hc hi with hc | ⟨rfl, _⟩
  · exact h k c hc hi
  · exact Nat.le_refl _

theorem Behind.rely (h : Behind i w token) (hr : Rely config i w w') : Behind i w' token :=
  fun k c hc hi => h k c (hr.own hc hi) hi

omit [Hashes] in
theorem Behind.untouched (h : Behind i w token) (hlt : token < n) : Untouched i w n := by
  intro k c hk hc hi
  exact absurd (Nat.lt_of_lt_of_le hlt (Nat.le_trans hk (h k c hc hi))) (Nat.lt_irrefl _)

/-- A takeover of what was loaded. -/
theorem Known.moves (h : Known config w head token) (ht : takeover config head i = .ok m)
    (heq : token = w.log.length) : Moves config (.opener i) (fun _ _ => True) w (w.commit (.opener i) m.headBody) := by
  refine ⟨fun hl => hl.commit (fun hnil => ?_) (fun b hb => ?_), .inr ⟨⟨.opener i, m.headBody⟩, rfl, rfl,
    fun _ _ => trivial⟩, Grows.refl _⟩
  · rcases h with ⟨n, c, _, hc, _⟩ | ⟨_, body, hn⟩
    · rw [hnil] at hc
      cases hc
    · exact ⟨m.head, .taken hn ht⟩
  · rcases h with ⟨n, c, rfl, hc, hh⟩ | ⟨rfl, _⟩
    · rw [List.getLast?_eq_getElem?, ← heq] at hb
      obtain rfl := Option.mem_unique hc hb
      exact ⟨m, hh ▸ .takeover ht, rfl⟩
    · rw [List.length_eq_zero_iff.1 heq.symm] at hb
      cases hb

theorem Known.swapped {a : Except Err (Object × Bool)} (h : Known config w head token)
    (ht : takeover config head i = .ok m) (hsw : Swapped config (.opener i) w token m.headBody a w') :
    After config i token ⟨.opener i, m.headBody⟩ w w' := by
  cases hsw with
  | landed hu heq hr _ => exact ((After.of_rely hu).trans (.commit ((h.rely hu).moves ht heq) heq)).rely hr
  | refused hu _ hr => exact .of_rely (hu.trans hr)
  | unanswered hr _ => exact .of_rely hr

/-- A swap that was answered shows a version at or after the one it expected. -/
theorem Known.answered {object : Object} {swapped : Bool} (h : Known config w head token)
    (hsw : Swapped config (.opener i) w token m.headBody (.ok (object, swapped)) w') :
    (∃ n c, w'.log[n]? = some c ∧ token ≤ n ∧ object = ⟨c.body, n + 1⟩) ∧
      (swapped = true → object.body = m.headBody) := by
  generalize ha : Except.ok (object, swapped) = a at hsw
  cases hsw with
  | @landed u _ _ _ heq hr hanswer =>
    rcases hanswer with rfl | ⟨e, _, rfl⟩
    · cases ha
      refine ⟨⟨token, ⟨.opener i, m.headBody⟩, hr.kept ?_, Nat.le_refl _, rfl⟩, fun _ => rfl⟩
      rw [World.commit, heq, List.getElem?_concat_length]
    · cases ha
  | @refused u _ hu hne hr =>
    have hlen := (h.rely hu).token_le
    have hlt := Nat.lt_of_le_of_ne hlen hne
    have hnil : u.log ≠ [] := by
      intro hnil
      rw [hnil] at hlt
      exact absurd hlt (Nat.not_lt_zero _)
    obtain ⟨n, c, hn, hc, hcur⟩ := World.exists_last hnil
    rw [hcur] at ha
    cases ha
    refine ⟨⟨n, c, hr.kept hc, ?_, rfl⟩, fun hno => by cases hno⟩
    rw [hn] at hlt
    exact Nat.le_of_lt_succ hlt
  | unanswered _ _ => cases ha

omit [Hashes] in
theorem pos_of_lt {x y : UInt64} (h : x < y) : y ≠ 0 := by
  rintro rfl
  exact absurd h (UInt64.not_lt.2 (UInt64.le_iff_toNat_le.2 (Nat.zero_le _)))

/-- The head is read once more after the last attempt. -/
theorem acquireUnanswered_spec (hl : Linear config v.world) {attempted : UInt64} (hpos : attempted ≠ 0) :
    (env config (.opener i) fun _ _ => True).wpE (fun s v' => SessionOk config i v'.world s) (fun _ _ => True)
      (acquireUnanswered config i lastErr attempted) v := by
  unfold acquireUnanswered
  rw [wpE_bind]
  refine wpE_adapt (wpE_mono ?_ (fun _ _ _ => trivial) (wpE_load hl))
  rintro ⟨observed, token⟩ v₁ ⟨hlater, hu, _, hknown⟩
  dsimp only
  split
  · rename_i hmatch
    intro v₂ hr₂
    have hepoch : observed.header.writerEpoch ≠ 0 := by
      rw [hmatch.2]
      exact hpos
    have hv : Version config v₁.world token observed := by
      refine hknown.resolve_right ?_
      rintro ⟨_, body, hn⟩
      exact hepoch (newHead_epoch hn)
    exact (SessionOk.new (hlater.rely.linear hl) hv hmatch.1 hepoch hu).rely hr₂.1
  · split
    · exact wpE_throw.2 fun _ _ => trivial
    · exact wpE_throw.2 fun _ _ => trivial

theorem acquireBackoff_spec : (env config (.opener i) allow).wpE
    (fun _ v' => Later config i v v') (fun _ _ => True) (acquireBackoff config lastErr) v :=
  wpE_adapt (wpE_mono (fun _ _ h => h) (fun _ _ _ => trivial) wpE_waitBackoff)

theorem acquire_spec (attempts : Nat) {attempted : UInt64}
    (hl : Linear config v.world) (hk : Known config v.world head token) (hb : Behind i v.world token)
    (hpos : attempts = 0 → attempted ≠ 0) :
    (env config (.opener i) fun _ _ => True).wpE (fun s v' => SessionOk config i v'.world s) (fun _ _ => True)
      (acquire config i attempts head token lastErr attempted) v := by
  induction attempts generalizing head token lastErr attempted v with
  | zero => exact acquireUnanswered_spec hl (hpos rfl)
  | succ attempts ih =>
    unfold acquire
    rw [wpE_bind]
    refine wpE_lift (fun mutation ht v₁ hr₁ => ?_) (fun _ _ _ _ => trivial)
    obtain ⟨htake, _, hmarshal, _⟩ := takeover_ok ht
    have hmpos : mutation.head.header.writerEpoch ≠ 0 := pos_of_lt htake.epoch
    have hk₁ := hk.rely hr₁.1
    rw [wpE_bind]
    refine wpE_liftProg (wp_mono ?_ (wp_cas fun u hu heq => (hk₁.rely hu).moves ht heq))
    rintro a v₂ ⟨hsw, _⟩
    have hafter := (After.of_rely hr₁.1).trans (hk₁.swapped ht hsw)
    have hl₂ := hafter.linear hl
    have hk₂ := hk.after hafter
    have hb₂ := hb.after hafter
    rcases a with casErr | ⟨object, swapped⟩
    · -- no answer: the same swap again
      dsimp only
      rw [wpE_bind]
      split
      · exact wpE_pure.2 fun v₃ hr₃ => ih (hr₃.1.linear hl₂) (hk₂.rely hr₃.1)
          (hb₂.rely hr₃.1) fun _ => hmpos
      · refine wpE_mono (fun _ v₃ hl₃ => ?_) (fun _ _ _ => trivial) acquireBackoff_spec
        exact ih (hl₃.rely.linear hl₂) (hk₂.rely hl₃.rely) (hb₂.rely hl₃.rely) fun _ => hmpos
    · obtain ⟨⟨n, d, hd, hle, rfl⟩, hbody⟩ := hk₁.answered hsw
      have hversion : Version config v₂.world (n + 1) (d.head config) := ⟨n, d, rfl, hd, rfl⟩
      have hu : Untouched i v₂.world (n + 1) := hb₂.untouched (Nat.lt_succ_of_le hle)
      dsimp only
      split
      · -- the takeover is the version that was answered
        rename_i hmine
        have hsame : d.body = mutation.headBody := hmine.elim hbody id
        have hhead : d.head config = mutation.head := by
          obtain ⟨_, henc⟩ := hl₂.reachable hd
          rw [hsame] at henc
          exact Except.ok.inj ((parse_marshalHead henc.marshal).symm.trans (parse_marshalHead hmarshal))
        rw [hhead] at hversion
        have hid : mutation.head.header.writerID = i := by rw [htake.eq]
        exact wpE_pure.2 fun v₃ hr₃ => (SessionOk.new hl₂ hversion hid hmpos hu).rely hr₃.1
      · rw [wpE_bind]
        refine wpE_lift (fun observed hobs v₃ hr₃ => ?_) (fun _ _ _ _ => trivial)
        obtain rfl : d.head config = observed :=
          Except.ok.inj ((hl₂.reachable hd).2.decode.symm.trans hobs)
        split
        · exact wpE_throw.2 fun _ _ => trivial
        · rw [wpE_bind]
          refine wpE_mono (fun _ v₄ hl₄ => ?_) (fun _ _ _ => trivial) acquireBackoff_spec
          have hrely := hr₃.1.trans hl₄.rely
          refine ih (hrely.linear hl₂) (.inl (hversion.rely hrely)) (fun k c hc hi => ?_) fun _ => hmpos
          exact Nat.le_trans (hb₂ k c (hrely.own hc hi) hi) (Nat.le_succ_of_le hle)

/-- A returned session owns an epoch its own process acquired. -/
theorem openWriter_spec {opts : EngineOptions} (hl : Linear config v.world) (hnew : Untouched i v.world 0) :
    (env config (.opener i) fun _ _ => True).wpE (fun s v' => SessionOk config i v'.world s) (fun _ _ => True)
      (openWriter config opts i) v := by
  unfold openWriter
  rw [wpE_bind]
  refine wpE_mono ?_ (fun _ _ _ => trivial) (wpE_reader Reader.checkCtx v)
  rintro _ v₁ ⟨hl₁, _⟩
  have hlinear₁ := hl₁.rely.linear hl
  rw [wpE_bind]
  refine wpE_mono ?_ (fun _ _ _ => trivial) (wpE_load hlinear₁)
  rintro ⟨head, token⟩ v₂ ⟨hl₂, _, _, hknown⟩
  refine acquire_spec _ (hl₂.rely.linear hlinear₁) hknown (fun k c hc hi => ?_) fun hzero => ?_
  · exact absurd hi (hnew k c (Nat.zero_le k) ((hl₁.rely.trans hl₂.rely).own hc hi))
  · exact absurd hzero (Nat.ne_of_gt opts.acquire_pos)

end ObjLog.Catengine
