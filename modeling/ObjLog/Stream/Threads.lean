import ObjLog.Stream.Request
/-!
# A thread of the stream among the others

The system of callers, workers and finishers, and what a thread has to show at
each operation.
-/

namespace ObjLog.Stream

open Lib Multipart

variable [Hashes]

variable {e : Op} {w' : World}

/-- One upload and all who use it. -/
def crowd (cfg : Settings) : Crowd Tid World Op Op.Answer Job.Reply where
  act i := Act cfg i
  tick := Tick cfg
  kept i w w' := Inv cfg w → Kept cfg i w w'
  refl i w _ := Kept.refl cfg i w
  trans h h' hinv := (h hinv).trans (h' ((h hinv).inv hinv))
  body _ := body cfg
  starts := starts cfg
  again := again

/-- Thread `i` may run `p` in `w`, and returns only where `Q` holds. -/
abbrev Wp (cfg : Settings) (i : Tid) {α : Type} (Q : α → World → Prop) (p : P α) (w : World) : Prop :=
  ((crowd cfg).env i).wp Q p w

variable {cfg : Settings} {i : Tid} {w : World} {α : Type} {Q : α → World → Prop}

theorem wp_pure {a : α} (h : Inv cfg w) (hQ : ∀ v, Kept cfg i w v → Inv cfg v → Q a v) : Wp cfg i Q (pure a) w :=
  fun v hv => hQ v (hv h) ((hv h).inv h)

theorem wp_op {f : e.Answer → P α} (h : Inv cfg w)
    (hstep : ∀ u, Kept cfg i w u → Inv cfg u → ∀ a u', Act cfg i u e a u' →
      (∀ j, j ≠ i → Kept cfg j u u') ∧ Wp cfg i Q (f a) u') : Wp cfg i Q (op e >>= f) w := by
  rw [Wp, op, Env.wp_bind]
  refine Env.wp_perform fun u hu a u' hact => ?_
  obtain ⟨hothers, hrest⟩ := hstep u (hu h) ((hu h).inv h) a u' hact
  exact ⟨fun j hj _ => hothers j hj, fun v hv => Env.wp_rely hrest hv⟩

/-- What is shown of a part of a program is shown whatever the others do meanwhile. -/
theorem wp_seq {β : Type} {p : P α} {f : α → P β} {R : β → World → Prop} (h : Wp cfg i Q p w)
    (hf : ∀ a v, Q a v → Wp cfg i R (f a) v) : Wp cfg i R (p >>= f) w :=
  Env.wp_bind.2 (Env.wp_mono hf h)

/-- A result passed through a function. -/
theorem wp_map {β : Type} {p : P α} {f : α → β} {R : β → World → Prop} (h : Wp cfg i (fun a => R (f a)) p w) :
    Wp cfg i R (p >>= fun a => pure (f a)) w :=
  Env.wp_bind.2 (Env.wp_later.2 h)

/-! ## Operations that no thread minds -/

/-- The operations that only read. -/
def Op.reads : Op → Bool
  | ctxErr _ | cause | writeState | failure | firstErr | growth _ | jobsClosed | waitDone _ | offset | waitChannel _ _
  | abortErr | awaitDone | newPart _ | limiter => true
  | _ => false

theorem Act.reads {a : e.Answer} (h : Act cfg i w e a w') (he : e.reads = true) : w' = w := by
  cases h <;> first | rfl | cases he

theorem wp_read (he : e.reads = true) {f : e.Answer → P α} (h : Inv cfg w)
    (hstep : ∀ u a, Kept cfg i w u → Inv cfg u → Act cfg i u e a u → Wp cfg i Q (f a) u) : Wp cfg i Q (op e >>= f) w :=
  wp_op h fun u hu hinv a u' hact => by
    obtain rfl := hact.reads he
    exact ⟨fun j _ => Kept.refl cfg j _, hstep _ a hu hinv hact⟩

theorem cancel_wp {cause : Err} {f : Unit → P α} (h : Inv cfg w)
    (hstep : ∀ u, Kept cfg i w u → Inv cfg u → Wp cfg i Q (f ()) u) : Wp cfg i Q (op (.cancel cause) >>= f) w :=
  wp_op h fun u hu hinv a u' hact => by
    cases hact
    have hkept : ∀ j, Kept cfg j u { u with cause := some (u.cause.getD cause) } := fun j => Kept.cancel _
    exact ⟨fun j _ => hkept j, hstep _ (hu.trans (hkept i)) ((hkept i).inv hinv)⟩

/-! ## Failures -/

/-- A thread that keeps the session's `Commit` from being called: a worker, or a writer with the jobs open. -/
def Live (cfg : Settings) (i : Tid) (w : World) : Prop :=
  (∃ n, i = .worker n ∧ n < cfg.parallelism ∧ n ∉ w.exited) ∨ (w.writeMu = some i ∧ w.jobsClosed = false)

theorem Live.kept (h : Live cfg i w) (hkept : Kept cfg i w w') : Live cfg i w' := by
  rcases h with ⟨n, hi, hn, hexited⟩ | ⟨hmu, hopen⟩
  · exact .inl ⟨n, hi, hn, hkept.exited n hi hexited⟩
  · obtain ⟨hmu', hhand⟩ := hkept.writeMu hmu
    exact .inr ⟨hmu', (congrArg Hand.jobsClosed hhand).trans hopen⟩

theorem Live.unsettled (h : Live cfg i w) (hinv : Inv cfg w) : ¬(w.done = true ∧ w.jobsClosed = true) := by
  rintro ⟨hdone, hclosed⟩
  rcases h with ⟨n, -, hn, hexited⟩ | ⟨-, hopen⟩
  · exact hexited (hinv.workers hdone n hn)
  · exact absurd (hopen.symm.trans hclosed) nofun

theorem Live.sure (h : Live cfg i w) (hinv : Inv cfg w) : ambiguous w.log = false := by
  rw [Bool.eq_false_iff]
  intro hamb
  obtain ⟨request, result, hmem⟩ := exists_of_ambiguous hamb
  exact h.unsettled hinv (hinv.called ⟨request, hinv.ended request result hmem⟩)

omit [Hashes] in
/-- The two ends of the section of `recordFailure`. -/
theorem recordFailure_cases (err : Err) (hs : ¬Settled w.state) : (Stopped w.state ∧ w.recordFailure err = (none, w)) ∨
    (¬Stopped w.state ∧ ∃ first, w.recordFailure err = (some first, { w with firstErr := some first, state := .failed })) := by
  unfold World.recordFailure
  by_cases hstopped : Stopped w.state
  · exact .inl ⟨hstopped, if_pos hstopped⟩
  · refine .inr ⟨hstopped, w.firstErr.getD err, ?_⟩
    have hfailed : (if w.state = .opened ∨ w.state = .sealing ∨ w.state = .sealed then .failed else w.state) =
        UploadState.failed := by
      cases hstate : w.state <;> simp_all [Stopped, Settled]
    refine (if_neg hstopped).trans ?_
    dsimp only
    rw [hfailed]

/-- After `recordFailure` the upload cannot succeed any more. -/
theorem recordFailure_wp {err : Err} (h : Inv cfg w) (hlive : Live cfg i w) :
    Wp cfg i (fun _ v => Kept cfg i w v ∧ Inv cfg v ∧ Bad v.state) (recordFailure err) w := by
  refine wp_op h fun u hu hinv a u' hact => ?_
  cases hact
  have hlive := hlive.kept hu
  have hs : ¬Settled u.state := fun hs => hlive.unsettled hinv (hinv.settled hs)
  rcases recordFailure_cases err hs with ⟨hstopped, heq⟩ | ⟨hstopped, first, heq⟩
  · rw [heq]
    refine ⟨fun j _ => Kept.refl cfg j u, wp_pure hinv fun v hv hinv' => ?_⟩
    exact ⟨hu.trans hv, hinv', hv.bad hstopped.bad⟩
  · rw [heq]
    have hidle : inCommit u.log = false := by
      rw [Bool.eq_false_iff]
      exact fun hin => hs (.inl (hinv.commits hin))
    have hfail := hinv.fail first hstopped hidle (hlive.sure hinv)
    have hkept : ∀ j, Kept cfg j u { u with firstErr := some first, state := .failed } := fun j =>
      Kept.fail hfail hstopped (fun hc => hs (.inr (.inl hc))) fun _ hc => hs (.inl hc)
    refine ⟨fun j _ => hkept j, ?_⟩
    dsimp only
    rw [← bind_pure (op (.cancel first))]
    refine cancel_wp hfail fun v hv hinv' => wp_pure hinv' fun v' hv' hinv'' => ?_
    exact ⟨(hu.trans (hkept i)).trans (hv.trans hv'), hinv'', hv'.bad (hv.bad (.inl rfl))⟩

/-! ## The writer's lock -/

/-- Thread `i` holds `writeMu` and may give it up. -/
structure Tidy (cfg : Settings) (i : Tid) (w : World) : Prop where
  inv : Inv cfg w
  lock : w.writeMu = some i
  room : w.activeBytes < cfg.partSize
  full : w.jobsClosed = false → ∀ p ∈ w.parts, p.length = cfg.partSize
  accepted : ¬Bad w.state → w.hashed = written w.log

theorem Tidy.kept (h : Tidy cfg i w) (hkept : Kept cfg i w w') : Tidy cfg i w' := by
  obtain ⟨hlock, hhand⟩ := hkept.writeMu h.lock
  injection hhand with _ hbytes _ _ hhashed hclosed hparts hwritten _
  refine ⟨hkept.inv h.inv, hlock, hbytes ▸ h.room, ?_, fun hbad => ?_⟩
  · rw [hclosed, hparts]
    exact h.full
  · rw [hhashed, hwritten]
    exact h.accepted fun hbad' => hbad (hkept.bad hbad')

theorem lockWrite_wp {f : Unit → P α} (h : Inv cfg w)
    (hstep : ∀ u, Kept cfg i w u → u.writeMu = none → Tidy cfg i { u with writeMu := some i } →
      Wp cfg i Q (f ()) { u with writeMu := some i }) : Wp cfg i Q (op .lockWrite >>= f) w :=
  wp_op h fun u hu hinv a u' hact => by
    cases hact with
    | lockWrite hfree =>
      refine ⟨fun j _ => Kept.lockWrite hinv hfree, hstep u hu hfree ?_⟩
      exact ⟨hinv.lockWrite, rfl, hinv.idleRoom hfree, hinv.full hfree, fun hbad => hinv.accepted hbad (.inl hfree)⟩

theorem unlockWrite_wp {f : Unit → P α} (h : Tidy cfg i w)
    (hstep : ∀ u, Kept cfg i w u → Tidy cfg i u → Inv cfg { u with writeMu := none } →
      Wp cfg i Q (f ()) { u with writeMu := none }) : Wp cfg i Q (op .unlockWrite >>= f) w :=
  wp_op h.inv fun u hu hinv a u' hact => by
    have htidy := h.kept hu
    cases hact
    have hinv' := hinv.unlockWrite htidy.room htidy.full htidy.accepted
    exact ⟨fun j hj => Kept.unlockWrite htidy.lock hj hinv', hstep u hu htidy hinv'⟩

/-- The part is dropped and the jobs are closed under the lock. -/
theorem discard_wp {f : Unit → P α} (h : Inv cfg w) (hlock : w.writeMu = some i) (hbad : Bad w.state)
    (hstep : ∀ u, Kept cfg i w u → Bad u.discardAndClose.state → Tidy cfg i u.discardAndClose →
      Wp cfg i Q (f ()) u.discardAndClose) : Wp cfg i Q (op .discard >>= f) w :=
  wp_op h fun u hu hinv a u' hact => by
    cases hact
    have hbad := hu.bad hbad
    have hlock := (hu.writeMu hlock).1
    have hinv' := hinv.discardAndClose hbad
    have hclosed : Bad u.discardAndClose.state ∧ Tidy cfg i u.discardAndClose := by
      rcases Option.eq_none_or_eq_some u.active with hactive | ⟨b, hactive⟩
      · rw [discardAndClose_none hactive] at hinv' ⊢
        refine ⟨hbad, hinv', hlock, ?_, nofun, absurd hbad⟩
        rw [hinv.inactive hactive]
        exact cfg.partSize_pos
      · rw [discardAndClose_some hactive] at hinv' ⊢
        exact ⟨hbad, hinv', hlock, cfg.partSize_pos, nofun, absurd hbad⟩
    exact ⟨fun j hj => Kept.discardAndClose hinv hbad hlock hj, hstep u hu hclosed.1 hclosed.2⟩

/-- Taking the lock, dropping the part and giving the lock up keeps what no part of it touches. -/
theorem lockedDiscard_wp {K : World → Prop} {f : Unit → P α} (hkept : ∀ u v, Kept cfg i u v → Inv cfg u → K u → K v)
    (hlock : ∀ u mu, K u → K { u with writeMu := mu }) (hdiscard : ∀ u, K u → K u.discardAndClose) (h : Inv cfg w)
    (hbad : Bad w.state) (hK : K w) (hstep : ∀ v, Inv cfg v → Bad v.state → K v → Wp cfg i Q (f ()) v) :
    Wp cfg i Q (op .lockWrite >>= fun _ => op .discard >>= fun _ => op .unlockWrite >>= f) w := by
  refine lockWrite_wp h fun u hu _ htidy => ?_
  refine discard_wp htidy.inv htidy.lock (hu.bad hbad) fun v hv hbad' htidy' => ?_
  refine unlockWrite_wp htidy' fun x hx _ hinv => hstep _ hinv (hx.bad hbad') ?_
  have hKu := hlock u (some i) (hkept w u hu h hK)
  have hKv := hdiscard v (hkept _ v hv htidy.inv hKu)
  exact hlock x none (hkept _ x hx htidy'.inv hKv)

end ObjLog.Stream
