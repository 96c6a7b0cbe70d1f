import ObjLog.Catengine.Interference
/-!
# What the store calls tell a process

One rule for each way the engine uses the store: reading the head, swapping it,
storing pages, waiting. Other processes may act before and after.
-/

namespace ObjLog.Catengine

open Lib Env Catformat Pmeta Blobstore

variable [Hashes] {config : Config} {i : Pid} {author : Author} {allow : Head → Head → Prop}
  {w w' : World} {v : View} {token : Token} {head : Head}

/-- `head` was version `token` of the head object. -/
def Version (config : Config) (w : World) (token : Token) (head : Head) : Prop :=
  ∃ n c, token = n + 1 ∧ w.log[n]? = some c ∧ c.head config = head

/-- The process has committed no version after the `n`th. -/
def Untouched (i : Pid) (w : World) (n : Nat) : Prop :=
  ∀ k c, n ≤ k → w.log[k]? = some c → c.author.pid ≠ i

theorem Version.rely (h : Version config w token head) (hr : Rely config i w w') : Version config w' token head := by
  obtain ⟨n, c, ht, hc, hh⟩ := h
  exact ⟨n, c, ht, hr.kept hc, hh⟩

theorem Untouched.rely {n : Nat} (h : Untouched i w n) (hr : Rely config i w w') : Untouched i w' n :=
  fun k c hk hc hi => h k c hk (hr.own hc hi) hi

/-- What others commit after the last version is not the process's own. -/
theorem Rely.untouched (h : Rely config i w w') : Untouched i w' w.log.length := by
  intro k c hk hc hi
  have := (List.getElem?_eq_some_iff.1 (h.own hc hi)).1
  omega

theorem Version.ne_nil (h : Version config w token head) : w.log ≠ [] := by
  obtain ⟨n, c, _, hc, _⟩ := h
  intro hnil
  rw [hnil] at hc
  cases hc

/-! ## Reading the head -/

theorem wp_getHead : (env config author allow).wp
    (fun a v' => Later config author.pid v v' ∧ ∃ u, Rely config author.pid v.world u ∧
      Rely config author.pid u v'.world ∧ (a = u.read config config.headPath ∨ ∃ e, Foreign e ∧ a = .error e))
    (Prog.perform (Op.get config.headPath)) v := by
  refine wp_perform ?_
  rintro u hu a _ ⟨w', ha, rfl⟩
  obtain ⟨rfl, hanswer⟩ := act_get ha
  refine ⟨Moves.of_pages rfl (Grows.refl _), fun v' hv => ?_⟩
  have hsaw : Later config author.pid u (u.saw config (.get config.headPath) a u.world) :=
    ⟨Rely.refl _, by simp [View.saw, isCas], fun hf => (Bool.or_eq_false_iff.1 hf).1⟩
  exact ⟨(Later.of_rely hu).trans (hsaw.trans (.of_rely hv)), _, hu.1, hv.1, hanswer⟩

/-- `Load` returns the head of some moment during the call. -/
theorem wpE_load (hl : Linear config v.world) : (env config author allow).wpE
    (fun r v' => Later config author.pid v v' ∧ Untouched author.pid v'.world r.2 ∧ v.world.log.length ≤ r.2 ∧
      (Version config v'.world r.2 r.1 ∨ (r.2 = 0 ∧ ∃ body, newHead config 0 = .ok (r.1, body))))
    (fun e v' => Later config author.pid v v' ∧ (v.world.log ≠ [] → Foreign e)) (load config) v := by
  unfold load
  rw [wpE_bind]
  refine wpE_liftProg (wp_mono ?_ wp_getHead)
  rintro a v₁ ⟨hlater, u, hvu, huv, hanswer⟩
  refine wpE_lift (fun r hr v₂ hrely => ?_) (fun e he v₂ hrely => ?_)
  all_goals
    have hlater₂ := hlater.trans (.of_rely hrely)
    have huv₂ := huv.trans hrely.1
    rw [World.read_head] at hanswer
  · refine ⟨hlater₂, ?_⟩
    by_cases hnil : u.log = []
    · have hcur : u.current = none := by simp [World.current, hnil]
      rw [hcur] at hanswer
      obtain rfl | ⟨e, hf, rfl⟩ := hanswer
      · simp only [loaded, Err.is, Err.bare, List.contains_cons, BEq.rfl, Bool.true_or, if_true, bind_ok, pure_ok,
          Prod.exists] at hr
        obtain ⟨head, body, hn, rfl⟩ := hr
        refine ⟨?_, ?_, .inr ⟨rfl, body, hn⟩⟩
        · have := huv₂.untouched
          rwa [hnil] at this
        · have := hvu.length
          rwa [hnil] at this
      · simp only [loaded, hf.is_eq_false (s := .objectNotFound) (by decide) (by decide), Bool.false_eq_true,
          if_false, throw_ok] at hr
    · obtain ⟨n, c, hlen, hc, hcur⟩ := World.exists_last hnil
      rw [hcur] at hanswer
      obtain rfl | ⟨e, hf, rfl⟩ := hanswer
      · obtain ⟨_, henc⟩ := (hvu.linear hl).reachable hc
        simp only [loaded, henc.decode, checks_ok, Except.ok.injEq, exists_eq_left'] at hr
        obtain rfl := hr
        refine ⟨hlen ▸ huv₂.untouched, hlen ▸ hvu.length, .inl ⟨n, c, rfl, huv₂.kept hc, rfl⟩⟩
      · simp only [loaded, hf.is_eq_false (s := .objectNotFound) (by decide) (by decide), Bool.false_eq_true,
          if_false, throw_ok] at hr
  · refine ⟨hlater₂, fun hne => ?_⟩
    have hune : u.log ≠ [] := by
      intro hnil
      have := hvu.length
      rw [hnil] at this
      exact hne (List.length_eq_zero_iff.1 (Nat.le_zero.1 this))
    obtain ⟨n, c, hlen, hc, hcur⟩ := World.exists_last hune
    rw [hcur] at hanswer
    obtain rfl | ⟨e', hf, rfl⟩ := hanswer
    · obtain ⟨_, henc⟩ := (hvu.linear hl).reachable hc
      simp [loaded, henc.decode] at he
    · rw [loaded, hf.is_eq_false (s := .objectNotFound) (by decide) (by decide)] at he
      cases he
      exact hf

/-! ## Swapping the head -/

/-- How a compare-and-swap of the head ends: it took effect, it was refused with the head of that
moment, or it did nothing and failed. -/
inductive Swapped (config : Config) (author : Author) (w : World) (expected : Token)
    (body : Bytes) : Except Err (Object × Bool) → World → Prop
  | landed {u w' : World} {a : Except Err (Object × Bool)} : Rely config author.pid w u → expected = u.log.length →
      Rely config author.pid (u.commit author body) w' →
      (a = .ok (⟨body, expected + 1⟩, true) ∨ ∃ e, Foreign e ∧ a = .error e) →
      Swapped config author w expected body a w'
  | refused {u w' : World} : Rely config author.pid w u → expected ≠ u.log.length →
      Rely config author.pid u w' →
      Swapped config author w expected body (.ok (u.current.getD ⟨[], 0⟩, false)) w'
  | unanswered {w' : World} {e : Err} : Rely config author.pid w w' → Foreign e →
      Swapped config author w expected body (.error e) w'

theorem wp_cas {expected : Token} {body : Bytes}
    (hmove : ∀ u, Rely config author.pid v.world u → expected = u.log.length →
      Moves config author allow u (u.commit author body)) : (env config author allow).wp
      (fun a v' => Swapped config author v.world expected body a v'.world ∧ (v'.failed = false → v.failed = false))
      (Prog.perform (Op.cas config.headPath expected body)) v := by
  refine wp_perform ?_
  rintro u hu a _ ⟨w', ha, rfl⟩
  obtain ⟨heq, rfl, hanswer⟩ | ⟨rfl, hanswer⟩ := act_cas ha
  · refine ⟨hmove u.world hu.1 heq, fun v' hv => ⟨.landed hu.1 heq hv.1 (heq ▸ hanswer), fun hf => ?_⟩⟩
    have := hv.2.2 ▸ hf
    exact hu.2.2 ▸ (Bool.or_eq_false_iff.1 this).1
  · refine ⟨Moves.of_pages rfl (Grows.refl _), fun v' hv => ⟨?_, fun hf => ?_⟩⟩
    · obtain ⟨hne, rfl⟩ | ⟨e, hf, rfl⟩ := hanswer
      · exact .refused hu.1 hne hv.1
      · exact .unanswered (hu.1.trans hv.1) hf
    · have := hv.2.2 ▸ hf
      exact hu.2.2 ▸ (Bool.or_eq_false_iff.1 this).1

/-! ## Waiting and storing pages -/

theorem wpE_waitBackoff : (env config author allow).wpE (fun _ v' => Later config author.pid v v')
    (fun _ v' => Later config author.pid v v') waitBackoff v := by
  unfold waitBackoff
  rw [wpE_bind]
  refine wpE_liftProg (wp_perform ?_)
  rintro u hu a _ ⟨w', ha, rfl⟩
  obtain rfl := act_wait ha
  refine ⟨Moves.of_pages rfl (Grows.refl _), fun v' hv => ?_⟩
  have hsaw : Later config author.pid u (u.saw config .wait a u.world) :=
    ⟨Rely.refl _, by simp [View.saw, isCas], fun hf => (Bool.or_eq_false_iff.1 hf).1⟩
  have hlater := (Later.of_rely hu).trans (hsaw.trans (.of_rely hv))
  cases a with
  | none => exact fun v'' hv' => hlater.trans (.of_rely hv')
  | some e => exact fun v'' hv' => hlater.trans (.of_rely hv')

/-- Without an error every page is stored. -/
theorem wpE_putPages (objects : List PageObject) : (env config author allow).wpE
    (fun _ v' => Later config author.pid v v' ∧ Stored v'.world.pages objects)
    (fun e v' => Later config author.pid v v' ∧ Determinate e) (putPages objects) v := by
  induction objects generalizing v with
  | nil => exact fun v' hv => ⟨.of_rely hv, fun o ho => by cases ho⟩
  | cons o objects ih =>
    unfold putPages
    rw [wpE_bind]
    refine wpE_adapt (wp_perform ?_)
    rintro u hu a _ ⟨w', ha, rfl⟩
    obtain ⟨hlog, hgrows, hok, herr⟩ := act_put ha
    refine ⟨Moves.of_pages hlog hgrows, fun v₁ hv => ?_⟩
    have hsaw : Later config author.pid u (u.saw config (.put o.key o.body) a w') :=
      ⟨Rely.of_pages hlog hgrows, by simp [View.saw, isCas], fun hf => (Bool.or_eq_false_iff.1 hf).1⟩
    have hlater := (Later.of_rely hu).trans (hsaw.trans (.of_rely hv))
    cases a with
    | error e => exact ⟨hlater, herr e rfl⟩
    | ok object =>
      refine wpE_mono ?_ ?_ ih
      · rintro _ v₂ ⟨hl, hs⟩
        refine ⟨hlater.trans hl, fun x hx => ?_⟩
        rcases List.mem_cons.1 hx with rfl | hx
        · exact hl.rely.pages _ _ (hv.1.pages _ _ (hok object rfl))
        · exact hs x hx
      · rintro e v₂ ⟨hl, he⟩
        exact ⟨hlater.trans hl, he⟩

end ObjLog.Catengine
