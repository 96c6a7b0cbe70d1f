import ObjLog.Stream.Threads
/-!
# `Write` and the part workers

`Write` accepts its input whole or leaves the upload failed. A worker stores a
receipt only for a part the provider was given as it was written.
-/

namespace ObjLog.Stream

open Lib Multipart

variable {taken : Bytes}

variable {rest input : Bytes} {w' : World} {ctx n : Nat} {job : PartJob}

variable [Hashes] {cfg : Settings} {i : Tid} {w : World} {α : Type} {Q : α → World → Prop}

/-! ## Sending a part -/

/-- Thread `i` writes: `taken` of its input is in, `rest` will fit. -/
structure Writing (cfg : Settings) (i : Tid) (taken rest : Bytes) (w : World) : Prop where
  inv : Inv cfg w
  lock : w.writeMu = some i
  opened : w.state = .opened ∨ Bad w.state
  jobs : w.jobsClosed = false
  full : ∀ p ∈ w.parts, p.length = cfg.partSize
  accepted : ¬Bad w.state → w.hashed = written w.log ++ taken
  size : w.hashed.length + rest.length ≤ cfg.limits.maxObjectSize.toNat
  count : w.hashed.length + rest.length ≤ cfg.partSize * cfg.limits.maxPartCount

theorem Writing.kept (h : Writing cfg i taken rest w) (hkept : Kept cfg i w w') : Writing cfg i taken rest w' := by
  obtain ⟨hlock, hhand⟩ := hkept.writeMu h.lock
  injection hhand with _ _ _ _ hhashed hclosed hparts hwritten _
  refine ⟨hkept.inv h.inv, hlock, ?_, hclosed.trans h.jobs, hparts ▸ h.full, fun hbad => ?_, hhashed ▸ h.size,
    hhashed ▸ h.count⟩
  · rcases h.opened with hs | hs
    · exact hkept.opened h.lock hs
    · exact .inr (hkept.bad hs)
  · rw [hhashed, hwritten]
    exact h.accepted fun hbad' => hbad (hkept.bad hbad')

theorem room_kept (hlock : w.writeMu = some i) (hroom : w.activeBytes < cfg.partSize)
    (hkept : Kept cfg i w w') : w'.activeBytes < cfg.partSize := by
  rw [show w'.activeBytes = w.activeBytes from congrArg Hand.activeBytes (hkept.writeMu hlock).2]
  exact hroom

/-- How `enqueueActiveLocked` ends: nothing to send, the part sent, or the upload as before. -/
theorem enqueueActiveLocked_wp {Q : Option Err → World → Prop} (h : Inv cfg w) (hlock : w.writeMu = some i)
    (hopen : w.jobsClosed = false) (hfull : ∀ p ∈ w.parts, p.length = cfg.partSize)
    (hnothing : ∀ u, Kept cfg i w u → Inv cfg u → u.active = none ∨ u.activeBytes = 0 → Q none u)
    (hsent : ∀ u b v, Kept cfg i w u → Inv cfg u → u.active = some b → u.activeBytes ≠ 0 → Inv cfg (u.enqueueActive b) →
      Kept cfg i (u.enqueueActive b) v → Q none v)
    (hfailed : ∀ err u, Kept cfg i w u → Inv cfg u → Q (some err) u) : Wp cfg i Q (enqueueActiveLocked ctx) w := by
  refine wp_op h fun u hu hinv a u' hact => ?_
  have hlock' := (hu.writeMu hlock).1
  have hhand := (hu.writeMu hlock).2
  have hopen' : u.jobsClosed = false := (congrArg Hand.jobsClosed hhand).trans hopen
  have hfull' : ∀ p ∈ u.parts, p.length = cfg.partSize := by
    rw [show u.parts = w.parts from congrArg Hand.parts hhand]
    exact hfull
  cases hact with
  | nothingToSend hnone =>
    refine ⟨fun j _ => Kept.refl cfg j u, wp_pure hinv fun v hv hinv' => hnothing v (hu.trans hv) hinv' ?_⟩
    have hhand' := (hv.writeMu hlock').2
    rw [show v.active = u.active from congrArg Hand.active hhand',
      show v.activeBytes = u.activeBytes from congrArg Hand.activeBytes hhand']
    exact hnone
  | @send _ b hactive hbytes hroom =>
    have hinv' := hinv.enqueueActive hlock' hactive hbytes hopen' hfull'
    refine ⟨fun j hj => Kept.enqueueActive hinv hlock' hj hactive hopen' hinv', ?_⟩
    exact wp_pure hinv' fun v hv _ => hsent u b v hu hinv hactive hbytes hinv' hv
  | sendCtx _ _ _ =>
    exact ⟨fun j _ => Kept.refl cfg j u, wp_pure hinv fun v hv hinv' => hfailed _ v (hu.trans hv) hinv'⟩
  | sendCancelled _ _ _ =>
    refine ⟨fun j _ => Kept.refl cfg j u, ?_⟩
    refine wp_read rfl hinv fun v failure hv hinv' _ => wp_pure hinv' fun v' hv' hinv'' => ?_
    exact hfailed _ v' (hu.trans (hv.trans hv')) hinv''

/-- A part that is full leaves the writer with nothing in hand. -/
theorem Writing.enqueueActive {b : Nat} (h : Writing cfg i taken rest w)
    (hfull : w.activeBytes = cfg.partSize) (hinv : Inv cfg (w.enqueueActive b)) :
    Writing cfg i taken rest (w.enqueueActive b) :=
  { h with
    inv := hinv
    full := fun p hp => by
      rcases mem_concat.1 hp with hp | rfl
      · exact h.full p hp
      · rw [World.contents, List.length_take, h.inv.lengths b, hfull, Nat.min_self] }

/-! ## Write -/

/-- A `Write` that fails with bytes accepted leaves the upload failed. -/
theorem failWriteLocked_wp {err : Err} {accepted : Bool} {Q : Option Err → World → Prop}
    (h : Writing cfg i taken rest w) (haccepted : accepted = false → taken = [] ∧ w.activeBytes < cfg.partSize)
    (hQ : ∀ err v, Tidy cfg i v → Q (some err) v) : Wp cfg i Q (failWriteLocked input err accepted) w := by
  unfold failWriteLocked
  split
  · rename_i hfalse
    obtain ⟨rfl, hroom⟩ := haccepted hfalse
    refine wp_read rfl h.inv fun u failure hu hinv _ => wp_read rfl hinv fun v cause hv hinv' _ => ?_
    have htidy : Tidy cfg i v := by
      have hwriting := h.kept (hu.trans hv)
      refine ⟨hinv', hwriting.lock, room_kept h.lock hroom (hu.trans hv), fun _ => hwriting.full, fun hbad => ?_⟩
      rw [hwriting.accepted hbad, List.append_nil]
    cases cause with
    | none => exact wp_pure hinv' fun v' hv' _ => hQ _ v' (htidy.kept hv')
    | some cause => exact wp_pure hinv' fun v' hv' _ => hQ _ v' (htidy.kept hv')
  · refine wp_seq (recordFailure_wp h.inv (.inr ⟨h.lock, h.jobs⟩)) fun _ u ⟨hu, hinv, hbad⟩ => ?_
    refine discard_wp hinv (hu.writeMu h.lock).1 hbad fun v _ hbad' htidy => ?_
    refine wp_op htidy.inv fun v' hv' hinv' a v'' hact => ?_
    cases hact
    have htidy' := htidy.kept hv'
    have hbad'' := hv'.bad hbad'
    have hwritten : written (v'.log ++ [.tore input]) = written v'.log := by rw [written_append, List.append_nil]
    have hinv'' : Inv cfg { v' with log := v'.log ++ [.tore input] } :=
      hinv'.recordQuiet rfl trivial (fun _ _ => hbad'') (absurd hbad'') fun _ => hwritten
    refine ⟨fun j _ => Kept.recordQuiet hinv'' rfl fun _ => hwritten, wp_pure hinv'' fun x hx _ => hQ err x (Tidy.kept ?_ hx)⟩
    exact ⟨hinv'', htidy'.lock, htidy'.room, htidy'.full, absurd hbad''⟩

/-- All of the input is in. -/
theorem wrote_wp {Q : Option Err → World → Prop} (h : Writing cfg i input [] w) (hroom : w.activeBytes < cfg.partSize)
    (hQ : ∀ err v, Tidy cfg i v → (err = none → .wrote input ∈ v.log) → Q err v) :
    Wp cfg i Q (op (.wrote input) >>= fun _ => pure none) w :=
  wp_op h.inv fun u hu hinv a u' hact => by
    cases hact
    have hwriting := h.kept hu
    have hopen : ∀ {p : Prop}, u.jobsClosed = true → p := fun hc => absurd (hwriting.jobs.symm.trans hc) nofun
    have hinv' : Inv cfg { u with log := u.log ++ [.wrote input] } :=
      hinv.recordQuiet rfl trivial nofun (fun _ hor => hor.elim (fun hmu => absurd (hwriting.lock.symm.trans hmu) nofun) hopen)
        fun hc => hopen (hinv.called hc).2
    refine ⟨fun j hj => Kept.recordQuiet hinv' rfl fun hmu => absurd (Option.some.inj (hmu.symm.trans hwriting.lock)) hj, ?_⟩
    have htidy : Tidy cfg i { u with log := u.log ++ [.wrote input] } := by
      have hroom' := room_kept h.lock hroom hu
      refine ⟨hinv', hwriting.lock, hroom', fun _ => hwriting.full, fun hbad => ?_⟩
      rw [written_append]
      exact hwriting.accepted hbad
    refine wp_pure hinv' fun v hv _ => hQ none v (htidy.kept hv) fun _ => hv.log _ ?_
    exact List.mem_append_right _ (List.mem_singleton_self _)

/-- One turn of the loop takes as much as the buffer has room for. -/
theorem Writing.copyIn {taken rest : Bytes} {b : Nat} (h : Writing cfg i taken rest w)
    (hinv : Inv cfg (w.copyIn cfg b rest)) :
    Writing cfg i (taken ++ rest.take (w.taken cfg rest)) (rest.drop (w.taken cfg rest)) (w.copyIn cfg b rest) := by
  have htaken : w.taken cfg rest ≤ rest.length := Nat.min_le_right _ _
  have hlength : (w.copyIn cfg b rest).hashed.length + (rest.drop (w.taken cfg rest)).length =
      w.hashed.length + rest.length := by
    rw [copyIn_hashed, List.length_append, List.length_take, List.length_drop]
    omega
  exact { h with
    inv := hinv
    accepted := fun hbad => by
      rw [copyIn_hashed, h.accepted hbad, List.append_assoc]
      rfl
    size := hlength ▸ h.size
    count := hlength ▸ h.count }

/-- A turn of the loop takes at least one byte, and sends the part if it is full. -/
theorem fillActive_wp {Q : Nat × Option Err → World → Prop}
    (h : Writing cfg i taken rest w) (hroom : w.activeBytes < cfg.partSize) (hrest : rest ≠ [])
    (hok : ∀ n v, 0 < n → Writing cfg i (taken ++ rest.take n) (rest.drop n) v → v.activeBytes < cfg.partSize →
      Q (n, none) v) (herr : ∀ n err v, Writing cfg i (taken ++ rest.take n) (rest.drop n) v → Q (n, some err) v) :
    Wp cfg i Q (fillActive ctx rest) w := by
  refine wp_op h.inv fun u hu hinv a u' hact => ?_
  have hwriting := h.kept hu
  have hroom := room_kept h.lock hroom hu
  have hpositive : 0 < u.taken cfg rest := by
    have := List.length_pos_iff.2 hrest
    have htaken : u.taken cfg rest = min (cfg.partSize - u.activeBytes) rest.length := rfl
    omega
  cases hact with
  | @copyIn _ b hactive =>
    have hinv' := hinv.copyIn hwriting.lock hactive hwriting.jobs hwriting.size hwriting.count
    have hnext := hwriting.copyIn hinv'
    refine ⟨fun j hj => Kept.copyIn hinv hwriting.lock hj hactive hwriting.jobs hinv', ?_⟩
    dsimp only
    split
    · rename_i hfull
      have hfull := of_decide_eq_true hfull
      refine wp_map (enqueueActiveLocked_wp hinv' hnext.lock hnext.jobs hnext.full (fun v hv _ hnone => ?_)
        (fun v b' x hv _ _ _ hsent hx => ?_) fun err v hv _ => herr _ err v (hnext.kept hv))
      · -- the buffer is full, so there is a part to send
        have hhand := (hv.writeMu hnext.lock).2
        have hactive' : v.active = some b := (congrArg Hand.active hhand).trans hactive
        have hbytes : v.activeBytes = cfg.partSize := (congrArg Hand.activeBytes hhand).trans hfull
        have := cfg.partSize_pos
        rcases hnone with hnone | hzero
        · exact absurd (hactive'.symm.trans hnone) nofun
        · omega
      · have hhand := (hv.writeMu hnext.lock).2
        have hbytes : v.activeBytes = cfg.partSize := (congrArg Hand.activeBytes hhand).trans hfull
        have hsent' := (hnext.kept hv).enqueueActive hbytes hsent
        exact hok _ x hpositive (hsent'.kept hx) (room_kept hsent'.lock cfg.partSize_pos hx)
    · rename_i hfull
      refine wp_pure hinv' fun v hv _ => hok _ v hpositive (hnext.kept hv) (room_kept hnext.lock ?_ hv)
      have hle := hinv'.room
      have hne : (u.copyIn cfg b rest).activeBytes ≠ cfg.partSize := fun heq => hfull (decide_eq_true heq)
      omega

/-- The loop of `Write`, with as many turns as bytes left. -/
theorem writeLoop_wp {turns : Nat} {accepted : Bool} {Q : Option Err → World → Prop}
    (h : Writing cfg i taken rest w) (hroom : w.activeBytes < cfg.partSize) (hinput : input = taken ++ rest)
    (haccepted : accepted = false → taken = []) (hturns : rest.length ≤ turns)
    (hQ : ∀ err v, Tidy cfg i v → (err = none → .wrote input ∈ v.log) → Q err v) :
    Wp cfg i Q (writeLoop ctx input turns rest accepted) w := by
  induction turns generalizing taken rest accepted w with
  | zero =>
    obtain rfl := List.length_eq_zero_iff.1 (Nat.le_zero.1 hturns)
    rw [List.append_nil] at hinput
    subst hinput
    exact wrote_wp h hroom hQ
  | succ turns ih =>
    cases rest with
    | nil =>
      rw [List.append_nil] at hinput
      subst hinput
      exact wrote_wp h hroom hQ
    | cons x xs =>
      have hfail : ∀ err v, Tidy cfg i v → Q (some err) v := fun err v hv => hQ _ v hv (by simp)
      -- the rest of the turn, once the writer has a buffer
      have hturn : ∀ next, (∀ n err, next (n, some err) = failWriteLocked input err true) →
          (∀ n, next (n, none) = writeLoop ctx input turns ((x :: xs).drop n) true) →
          ∀ u, Writing cfg i taken (x :: xs) u → u.activeBytes < cfg.partSize →
            Wp cfg i Q (fillActive ctx (x :: xs) >>= next) u := by
        intro next herr hok u hwriting hroom
        refine Env.wp_bind.2 (fillActive_wp hwriting hroom (List.cons_ne_nil x xs) (fun n v hn hv hroom' => ?_)
          fun n err v hv => ?_)
        · rw [hok]
          refine ih hv hroom' ?_ (by simp) ?_
          · rw [hinput, List.append_assoc, List.take_append_drop]
          · rw [List.length_drop]
            rw [List.length_cons] at hturns ⊢
            omega
        · rw [herr]
          exact failWriteLocked_wp hv (by simp) hfail
      refine wp_op h.inv fun u hu hinv a u' hact => ?_
      have hwriting := h.kept hu
      have hroom := room_kept h.lock hroom hu
      cases hact with
      | hasActive hactive => exact ⟨fun j _ => Kept.refl cfg j u, hturn _ (fun _ _ => rfl) (fun _ => rfl) u hwriting hroom⟩
      | @lease _ b hnone hidle hcause hctx =>
        have hinv' := hinv.lease hnone hidle
        refine ⟨fun j hj => Kept.lease hinv hwriting.lock hj hnone hidle, ?_⟩
        exact hturn _ (fun _ _ => rfl) (fun _ => rfl) _ { hwriting with inv := hinv' } hroom
      | leaseCtx | leaseCause =>
        exact ⟨fun j _ => Kept.refl cfg j u, failWriteLocked_wp hwriting (fun hf => ⟨haccepted hf, hroom⟩) hfail⟩

/-- What `validateGrowth` lets through fits. -/
theorem validateGrowth_none {bytes : Nat} (h : Inv cfg w) (hgrowth : w.validateGrowth cfg bytes = none) :
    w.hashed.length + bytes ≤ cfg.limits.maxObjectSize.toNat ∧
      w.hashed.length + bytes ≤ cfg.partSize * cfg.limits.maxPartCount := by
  obtain ⟨hoffset, hsize, hcount⟩ := h.size
  unfold World.validateGrowth at hgrowth
  split at hgrowth
  · rename_i hzero
    subst hzero
    exact ⟨hsize, hcount⟩
  · split at hgrowth
    · cases hgrowth
    · rename_i hfits
      dsimp only at hgrowth
      split at hgrowth
      · cases hgrowth
      · rename_i hpositive hparts
        have hdiv := Nat.lt_mul_div_succ (w.offset.toNat + bytes - 1) cfg.partSize_pos
        have hle : cfg.partSize * ((w.offset.toNat + bytes - 1) / cfg.partSize + 1) ≤
            cfg.partSize * cfg.limits.maxPartCount := Nat.mul_le_mul_left _ (by omega)
        omega

theorem writeStateError_none (h : Inv cfg w) (hnone : w.writeStateError = none) : w.state = .opened := by
  unfold World.writeStateError at hnone
  cases hs : w.state with
  | opened => rfl
  | failed =>
    rw [hs] at hnone
    exact absurd hnone (h.failedErr hs)
  | _ =>
    rw [hs] at hnone
    cases hnone

theorem writeLocked_wp {data : Bytes} (h : Tidy cfg i w) :
    Wp cfg i (fun err v => Tidy cfg i v ∧ (err = none → .wrote data ∈ v.log)) (writeLocked ctx data) w := by
  refine wp_read rfl h.inv fun u err hu hinv hact => ?_
  have htidy := h.kept hu
  have hanswer : err = u.writeStateError := by
    cases hact
    rfl
  cases err with
  | some err => exact wp_pure hinv fun v hv _ => ⟨htidy.kept hv, nofun⟩
  | none =>
    have hopened : u.state = .opened := writeStateError_none hinv hanswer.symm
    have hjobs : u.jobsClosed = false := by
      rw [Bool.eq_false_iff]
      exact fun hclosed => hinv.openJobs hclosed hopened
    refine wp_read rfl hinv fun v err hv hinv' hact => ?_
    have htidy' := htidy.kept hv
    have hanswer : err = v.validateGrowth cfg data.length := by
      cases hact
      rfl
    cases err with
    | some err => exact wp_pure hinv' fun x hx _ => ⟨htidy'.kept hx, nofun⟩
    | none =>
      obtain ⟨hsize, hcount⟩ := validateGrowth_none hinv' hanswer.symm
      have hjobs' : v.jobsClosed = false := (congrArg Hand.jobsClosed (hv.writeMu htidy.lock).2).trans hjobs
      have hwriting : Writing cfg i [] data v :=
        { inv := hinv'
          lock := htidy'.lock
          opened := hv.opened htidy.lock hopened
          jobs := hjobs'
          full := htidy'.full hjobs'
          accepted := fun hbad => by rw [List.append_nil]; exact htidy'.accepted hbad
          size := hsize
          count := hcount }
      exact writeLoop_wp hwriting htidy'.room rfl (fun _ => rfl) le_rfl fun err x hx hwrote => ⟨hx, hwrote⟩

theorem write_wp {data : Bytes} (h : Inv cfg w) :
    Wp cfg i (fun err v => Inv cfg v ∧ (err = none → .wrote data ∈ v.log)) (write ctx data) w := by
  refine wp_read rfl h fun u err hu hinv hact => ?_
  cases err with
  | some err => exact wp_pure hinv fun v _ hinv' => ⟨hinv', nofun⟩
  | none =>
    refine lockWrite_wp hinv fun v hv hfree htidy => wp_seq (writeLocked_wp htidy) fun err x ⟨htidy', hwrote⟩ => ?_
    refine unlockWrite_wp htidy' fun y hy _ hinv' => wp_pure hinv' fun z hz hinv'' => ⟨hinv'', fun herr => ?_⟩
    exact hz.log _ (hy.log _ (hwrote herr))

/-! ## The workers -/

/-- Worker `n` has not returned. -/
def Working (cfg : Settings) (n : Nat) (w : World) : Prop := Inv cfg w ∧ n < cfg.parallelism ∧ n ∉ w.exited

theorem Working.kept (h : Working cfg n w) (hkept : Kept cfg (.worker n) w w') : Working cfg n w' :=
  ⟨hkept.inv h.1, h.2.1, hkept.exited n rfl h.2.2⟩

theorem Working.live (h : Working cfg n w) : Live cfg (.worker n) w := .inl ⟨n, rfl, h.2⟩

theorem Working.notDone (h : Working cfg n w) : w.done = false := by
  rw [Bool.eq_false_iff]
  exact fun hdone => h.2.2 (h.1.workers hdone n h.2.1)

/-- Worker `n` has a job in hand. -/
structure Carrying (cfg : Settings) (n : Nat) (job : PartJob) (w : World) : Prop where
  working : Working cfg n w
  owner : (w.buffers job.buffer).owner = .thread (.worker n)
  job : JobOk w.parts (w.buffers job.buffer) job

theorem Carrying.kept (h : Carrying cfg n job w) (hkept : Kept cfg (.worker n) w w') :
    Carrying cfg n job w' ∧ w'.buffers job.buffer = w.buffers job.buffer := by
  have hbuffer := hkept.own job.buffer h.owner
  exact ⟨⟨h.working.kept hkept, by rw [hbuffer]; exact h.owner, by rw [hbuffer]; exact h.job.mono hkept.parts⟩, hbuffer⟩

theorem release_wp {α : Type} {Q : α → World → Prop} {f : Unit → P α}
    (h : Carrying cfg n job w) (hstep : ∀ v, Working cfg n v → Wp cfg (.worker n) Q (f ()) v) :
    Wp cfg (.worker n) Q (op (.release job.buffer) >>= f) w :=
  wp_op h.working.1 fun u hu hinv a u' hact => by
    obtain ⟨hcarrying, -⟩ := h.kept hu
    cases hact
    have hkept : ∀ j, j ≠ .worker n → Kept cfg j u { u with buffers := setOwner u.buffers job.buffer .idle } :=
      fun j hj => Kept.release hinv hcarrying.owner hj
    refine ⟨hkept, hstep _ ⟨(hkept (.caller 0) nofun).inv hinv, hcarrying.working.2⟩⟩

/-- The provider's receipt for the part the worker has in hand. -/
def Receipted (job : PartJob) (w : World) (receipt : Receipt) : Prop :=
  receipt.number = job.number ∧ ReceiptFor w.log ((w.buffers job.buffer).bytes.take job.used) receipt

theorem Receipted.kept {receipt : Receipt} (h : Receipted job w receipt)
    (hcarrying : Carrying cfg n job w) (hkept : Kept cfg (.worker n) w w') : Receipted job w' receipt := by
  refine ⟨h.1, ?_⟩
  rw [(hcarrying.kept hkept).2]
  exact h.2.mono hkept.log

omit [Hashes] in
theorem checkReceipt_ok {part : Part} {receipt receipt' : Receipt}
    (h : checkReceipt job part receipt = .ok receipt') : receipt' = receipt ∧ receipt.number = job.number ∧
      receipt.sizeBytes.toNat = job.used ∧ receipt.checksumSHA256 = part.checksumSHA256 := by
  simp only [checkReceipt, checks_ok, not_not] at h
  obtain ⟨hnumber, hsize, hchecksum, rfl⟩ := h
  exact ⟨rfl, hnumber, hsize, hchecksum⟩

/-- The provider is given the part as it was written, and what is left in the buffer is the same. -/
theorem putPart_wp {part : Part} (h : Carrying cfg n job w)
    (hpart : part.checksumSHA256 = Hashes.sha256 ((w.buffers job.buffer).bytes.take job.used)) :
    Wp cfg (.worker n) (fun r v => Carrying cfg n job v ∧ ∀ receipt, r = .ok receipt → Receipted job v receipt)
      (putPart job part) w := by
  refine wp_op h.working.1 fun u hu hinv a u' hact => ?_
  obtain ⟨hcarrying, hbuffer⟩ := h.kept hu
  cases hact
  have hcalled : ¬CommitCalled u.log := fun hc =>
    absurd (hcarrying.working.notDone.symm.trans (hinv.called hc).1) nofun
  have hbegan : ∀ j, Kept cfg j u { u with log := u.log ++ [.putBegan job.number (u.contents job.buffer job.used)] } :=
    fun j => Kept.recordSilent hinv rfl hcalled
  refine ⟨fun j _ => hbegan j, ?_⟩
  obtain ⟨hcarrying', -⟩ := hcarrying.kept (hbegan (.worker n))
  refine wp_op hcarrying'.working.1 fun v hv hinv' result v' hact => ?_
  obtain ⟨hcarrying'', hbuffer'⟩ := hcarrying'.kept hv
  cases hact
  have hended : ∀ j, Kept cfg j v { v with
      log := v.log ++ [.putEnded job.number (u.contents job.buffer job.used) (v.contents job.buffer job.used) result] } :=
    fun j => Kept.recordSilent hinv' rfl trivial
  obtain ⟨hcarrying₃, -⟩ := hcarrying''.kept (hended (.worker n))
  refine ⟨fun j _ => hended j, wp_pure hcarrying₃.working.1 fun x hx _ => ⟨(hcarrying₃.kept hx).1, ?_⟩⟩
  intro receipt hok
  obtain ⟨receipt', hresult, hcheck⟩ := bind_ok.1 hok
  obtain ⟨rfl, hnumber, hsize, hchecksum⟩ := checkReceipt_ok hcheck
  refine Receipted.kept ⟨hnumber, ?_⟩ hcarrying₃ hx
  have hsent : (u.buffers job.buffer).bytes = (v.buffers job.buffer).bytes := (congrArg Buffer.bytes hbuffer').symm
  refine ⟨?_, ?_, ?_⟩
  · rw [hsize, List.length_take]
    exact (Nat.min_eq_left hcarrying''.job.used).symm
  · rw [hchecksum, hpart, ← hbuffer, hsent]
  · refine List.mem_append_right _ (List.mem_singleton.2 ?_)
    simp only [hnumber, World.contents, hsent, hresult]

theorem uploadPart_wp (h : Carrying cfg n job w) :
    Wp cfg (.worker n) (fun r v => Carrying cfg n job v ∧ ∀ receipt, r = .ok receipt → Receipted job v receipt)
      (uploadPart cfg job) w := by
  refine wp_read rfl h.working.1 fun u part hu hinv hact => ?_
  obtain ⟨hcarrying, -⟩ := h.kept hu
  have hpart : part.checksumSHA256 = Hashes.sha256 ((u.buffers job.buffer).bytes.take job.used) := by
    cases hact
    rfl
  split
  · refine wp_read rfl hinv fun v err hv hinv' _ => ?_
    obtain ⟨hcarrying', hbuffer⟩ := hcarrying.kept hv
    cases err with
    | some err => exact wp_pure hinv' fun x hx _ => ⟨(hcarrying'.kept hx).1, nofun⟩
    | none => exact putPart_wp hcarrying' (by rw [hbuffer]; exact hpart)
  · exact putPart_wp hcarrying hpart

/-- One turn of a worker. -/
theorem uploadWorker_wp (h : Working cfg n w) :
    Wp cfg (.worker n) (fun goesOn v => Inv cfg v ∧ (goesOn = true → Working cfg n v)) (uploadWorker cfg) w := by
  refine wp_op h.1 fun u hu hinv a u' hact => ?_
  have hworking := h.kept hu
  cases hact with
  | recvClosed hjobs hclosed =>
    refine ⟨fun j _ => Kept.refl cfg j u, wp_op hinv fun v hv hinv' a v' hact => ?_⟩
    cases hact with
    | @exit m hm =>
      obtain rfl := Tid.worker.inj hm
      have hkept : ∀ j, j ≠ .worker n → Kept cfg j v { v with exited := n :: v.exited } := fun j hj => Kept.exit hj
      exact ⟨hkept, wp_pure ((hkept (.caller 0) nofun).inv hinv') fun x _ hinv'' => ⟨hinv'', nofun⟩⟩
  | @recv job jobs hjobs =>
    have hkept : ∀ j, Kept cfg j u { u with jobs := jobs, buffers := setOwner u.buffers job.buffer (.thread (.worker n)) } :=
      fun j => Kept.recv hinv hjobs
    refine ⟨fun j _ => hkept j, ?_⟩
    have hcarrying : Carrying cfg n job
        { u with jobs := jobs, buffers := setOwner u.buffers job.buffer (.thread (.worker n)) } := by
      have hjob := (hinv.queue job (by rw [hjobs]; exact List.mem_cons_self)).2
      refine ⟨hworking.kept (hkept _), by dsimp only; rw [setOwner_self], ?_⟩
      dsimp only
      rw [setOwner_self]
      exact ⟨hjob.part, hjob.used⟩
    refine wp_read rfl hcarrying.working.1 fun v cause hv hinv' _ => ?_
    obtain ⟨hcarrying', -⟩ := hcarrying.kept hv
    cases cause with
    | some cause =>
      exact release_wp hcarrying' fun x hx => wp_pure hx.1 fun y hy hinv'' => ⟨hinv'', fun _ => hx.kept hy⟩
    | none =>
      refine wp_seq (uploadPart_wp hcarrying') fun r x ⟨hx, hreceipt⟩ => ?_
      cases r with
      | ok receipt =>
        have hreceipted := hreceipt receipt rfl
        refine wp_op hx.working.1 fun y hy hinv'' a y' hact => ?_
        cases hact
        obtain ⟨hcarrying₃, hbuffer⟩ := hx.kept hy
        obtain ⟨hnumber, hfor⟩ := hreceipted.kept hx hy
        obtain ⟨k, hk, hpart⟩ := hcarrying₃.job.part
        have hdone := hcarrying₃.working.notDone
        have hstored := hinv''.storeReceipt hdone (hnumber.trans hk) hpart hfor
        rw [← hk] at hstored
        refine ⟨fun j _ => Kept.storeReceipt hdone hstored, ?_⟩
        have hcarrying₄ : Carrying cfg n job (y.storeReceipt job.number receipt) :=
          ⟨⟨hstored, hcarrying₃.working.2⟩, hcarrying₃.owner, hcarrying₃.job⟩
        exact release_wp hcarrying₄ fun z hz => wp_pure hz.1 fun z' hz' hinv₃ => ⟨hinv₃, fun _ => hz.kept hz'⟩
      | error err =>
        refine release_wp hx fun y hy => wp_seq (recordFailure_wp hy.1 hy.live) fun _ z ⟨hz, hinv'', hbad⟩ => ?_
        have hworking' := hy.kept hz
        refine lockedDiscard_wp (K := fun v => n ∉ v.exited) (fun u v hkept _ hn => hkept.exited n rfl hn)
          (fun _ _ hn => hn) (fun u hn => ?_) hinv'' hbad hworking'.2.2 fun v hinv₃ _ hn => ?_
        · rcases Option.eq_none_or_eq_some u.active with hactive | ⟨b, hactive⟩
          · rwa [discardAndClose_none hactive]
          · rwa [discardAndClose_some hactive]
        · have hworking₃ : Working cfg n v := ⟨hinv₃, hworking'.2.1, hn⟩
          exact wp_pure hinv₃ fun x hx hinv₄ => ⟨hinv₄, fun _ => hworking₃.kept hx⟩

end ObjLog.Stream
