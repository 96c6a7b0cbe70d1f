import ObjLog.Stream.Steps
/-!
# The operations on parts and buffers keep the invariant

The writer fills a buffer and sends it; a worker takes it, uploads it and gives it
back. A buffer has one owner at a time, so what one of them does to its buffer
the others do not see.
-/

namespace ObjLog.Stream

open Lib Multipart
open Function (update update_of_ne update_self)

variable {buffers : Nat → Buffer} {job : PartJob}

/-! ## Buffers -/

@[simp] theorem setOwner_self (buffers : Nat → Buffer) (b : Nat) (owner : Owner) :
    setOwner buffers b owner b = { buffers b with owner := owner } := by
  simp [setOwner]

theorem setOwner_of_ne {b b' : Nat} (owner : Owner) (h : b' ≠ b) :
    setOwner buffers b owner b' = buffers b' := by
  simp [setOwner, h]

@[simp] theorem setOwner_bytes (buffers : Nat → Buffer) (b b' : Nat) (owner : Owner) :
    (setOwner buffers b owner b').bytes = (buffers b').bytes := by
  by_cases h : b' = b
  · subst h
    simp
  · rw [setOwner_of_ne owner h]

theorem World.activeContents_none {w : World} (h : w.active = none) : w.activeContents = [] := by
  simp [activeContents, h]

theorem World.activeContents_some {w : World} {b : Nat} (h : w.active = some b) :
    w.activeContents = (w.buffers b).bytes.take w.activeBytes := by
  simp [activeContents, h, contents]

theorem World.activeContents_zero {w : World} (h : w.activeBytes = 0) : w.activeContents = [] := by
  unfold activeContents
  split
  · rw [contents, h, List.take_zero]
  · rfl

theorem World.activeContents_congr {w w' : World} (hactive : w'.active = w.active)
    (hbytes : w'.activeBytes = w.activeBytes)
    (hbuffers : ∀ b, w.active = some b → (w'.buffers b).bytes = (w.buffers b).bytes) :
    w'.activeContents = w.activeContents := by
  rcases Option.eq_none_or_eq_some w.active with hb | ⟨b, hb⟩
  · rw [activeContents_none hb, activeContents_none (hactive.trans hb)]
  · rw [activeContents_some hb, activeContents_some (hactive.trans hb), hbytes, hbuffers b hb]

variable [Hashes] {cfg : Settings} {w : World} {i j : Tid} {b : Nat}

section
variable (h : Inv cfg w)
include h

/-- A queued buffer is not one with another owner. -/
theorem Inv.queued_ne (hjob : job ∈ w.jobs) (hb : (w.buffers b).owner ≠ .queued) : job.buffer ≠ b := by
  rintro rfl
  exact hb (h.queue job hjob).1

/-- The buffers of the pool and of the workers change. -/
theorem Inv.setBuffers (hlengths : ∀ b, (buffers b).bytes.length = cfg.partSize)
    (hkept : ∀ b, (w.buffers b).owner = .active ∨ (w.buffers b).owner = .queued → buffers b = w.buffers b) :
    Inv cfg { w with buffers := buffers } :=
  have hactive : ∀ b, w.active = some b → buffers b = w.buffers b := fun b hb => hkept b (.inl (h.owner b hb))
  have hcontents : World.activeContents { w with buffers := buffers } = w.activeContents :=
    World.activeContents_congr rfl rfl fun b hb => congrArg Buffer.bytes (hactive b hb)
  { h with
    lengths := hlengths
    owner := fun b hb => by
      dsimp only at hb ⊢
      rw [hactive b hb]
      exact h.owner b hb
    queue := fun job hjob => by
      dsimp only
      rw [hkept job.buffer (.inr (h.queue job hjob).1)]
      exact h.queue job hjob
    bytes := fun hbad => by
      rw [hcontents]
      exact h.bytes hbad
    sent := fun hbad hclosed => by
      rw [hcontents]
      exact h.sent hbad hclosed }

theorem Kept.setBuffers (hlengths : ∀ b, (buffers b).bytes.length = cfg.partSize)
    (hkept : ∀ b, (w.buffers b).owner = .active ∨ (w.buffers b).owner = .queued ∨ (w.buffers b).owner = .thread j →
      buffers b = w.buffers b) : Kept cfg j w { w with buffers := buffers } :=
  { Kept.refl cfg j w with
    inv := fun _ => h.setBuffers hlengths fun b hb => hkept b (hb.imp_right .inl)
    writeMu := fun hj => by
      refine ⟨hj, ?_⟩
      simp only [World.hand]
      cases hb : w.active with
      | none => rfl
      | some b => simp [hkept b (.inl (h.owner b hb))]
    own := fun b hb => hkept b (.inr (.inr hb)) }

theorem Kept.release (hown : (w.buffers b).owner = .thread i) (hj : j ≠ i) :
    Kept cfg j w { w with buffers := setOwner w.buffers b .idle } := by
  refine Kept.setBuffers h (fun b' => by rw [setOwner_bytes]; exact h.lengths b') fun b' hb' => setOwner_of_ne _ ?_
  rintro rfl
  rw [hown] at hb'
  rcases hb' with hb' | hb' | hb'
  · cases hb'
  · cases hb'
  · exact hj (Owner.thread.inj hb').symm

/-! ## The writer -/

/-- The writer takes a buffer of the pool. -/
theorem Inv.lease (hnone : w.active = none) (hidle : (w.buffers b).owner = .idle) :
    Inv cfg { w with active := some b, buffers := setOwner w.buffers b .active } :=
  have hcontents : World.activeContents { w with active := some b, buffers := setOwner w.buffers b .active } =
      w.activeContents := by
    rw [World.activeContents_none hnone, World.activeContents_some rfl]
    simp [h.inactive hnone]
  { h with
    lengths := fun b' => by
      dsimp only
      rw [setOwner_bytes]
      exact h.lengths b'
    owner := fun b' hb' => by
      dsimp only at hb' ⊢
      rw [← Option.some.inj hb', setOwner_self]
    inactive := nofun
    queue := fun job hjob => by
      dsimp only
      rw [setOwner_of_ne _ (h.queued_ne hjob (by rw [hidle]; nofun))]
      exact h.queue job hjob
    bytes := fun hbad => by rw [hcontents]; exact h.bytes hbad
    sent := fun hbad hclosed => by rw [hcontents]; exact h.sent hbad hclosed }

theorem Kept.lease (hi : w.writeMu = some i) (hj : j ≠ i) (hnone : w.active = none)
    (hidle : (w.buffers b).owner = .idle) :
    Kept cfg j w { w with active := some b, buffers := setOwner w.buffers b .active } :=
  { Kept.refl cfg j w with
    inv := fun _ => h.lease hnone hidle
    writeMu := fun hmu => absurd (Option.mem_unique hmu hi) hj
    own := fun b' hb' => by
      refine setOwner_of_ne _ ?_
      rintro rfl
      exact absurd (hidle.symm.trans hb') nofun }

end

/-- How many bytes `copyIn` takes. -/
def World.taken (cfg : Settings) (w : World) (data : Bytes) : Nat := min (cfg.partSize - w.activeBytes) data.length

omit [Hashes] in
theorem copyIn_activeBytes (data : Bytes) : (w.copyIn cfg b data).activeBytes = w.activeBytes + w.taken cfg data := rfl

omit [Hashes] in
theorem copyIn_hashed (data : Bytes) : (w.copyIn cfg b data).hashed = w.hashed ++ data.take (w.taken cfg data) := rfl

theorem Inv.copyIn_contents (h : Inv cfg w) (hactive : w.active = some b) (data : Bytes) :
    (w.copyIn cfg b data).activeContents = w.activeContents ++ data.take (w.taken cfg data) := by
  have hlength := h.lengths b
  have hroom := h.room
  have htaken : w.taken cfg data = min (cfg.partSize - w.activeBytes) data.length := rfl
  have hold : ((w.buffers b).bytes.take w.activeBytes).length = w.activeBytes := by
    rw [List.length_take, hlength]
    omega
  have hnew : (data.take (w.taken cfg data)).length = w.taken cfg data := by
    rw [List.length_take]
    omega
  rw [World.activeContents_some hactive, World.activeContents_some (w := w.copyIn cfg b data) hactive]
  change ((update w.buffers b _) b).bytes.take (w.activeBytes + w.taken cfg data) = _
  rw [update_self]
  change ((w.buffers b).bytes.take w.activeBytes ++ (data.take (w.taken cfg data) ++ _)).take _ = _
  rw [← List.append_assoc, List.take_append_of_le_length (by rw [List.length_append, hold, hnew]),
    List.take_of_length_le (by rw [List.length_append, hold, hnew])]

section
variable (h : Inv cfg w) (hi : w.writeMu = some i)
include h hi

theorem Inv.copyIn (hactive : w.active = some b)
    (hopen : w.jobsClosed = false) {data : Bytes} (hsize : w.hashed.length + data.length ≤ cfg.limits.maxObjectSize.toNat)
    (hcount : w.hashed.length + data.length ≤ cfg.partSize * cfg.limits.maxPartCount) : Inv cfg (w.copyIn cfg b data) :=
  have hlength := h.lengths b
  have hroom := h.room
  have htaken : w.taken cfg data = min (cfg.partSize - w.activeBytes) data.length := rfl
  have hne : (w.buffers b).owner = .active := h.owner b hactive
  have hqueued : (w.buffers b).owner ≠ .queued := by rw [hne]; nofun
  have hclosed : ∀ {p : Prop}, w.jobsClosed = true → p := fun hc => absurd (hopen.symm.trans hc) nofun
  have hhashed : (w.copyIn cfg b data).hashed.length = w.hashed.length + w.taken cfg data := by
    rw [copyIn_hashed, List.length_append, List.length_take]
    omega
  { h with
    size := by
      rw [hhashed]
      refine ⟨?_, by omega, by omega⟩
      change _ = (w.offset + UInt64.ofNat (w.taken cfg data)).toNat
      have hmax := cfg.limits.maxObjectSize.toNat_lt
      rw [h.size.1] at hsize ⊢
      have hlt : w.taken cfg data < 2 ^ 64 := by omega
      rw [UInt64.toNat_add, UInt64.toNat_ofNat_of_lt' hlt, Nat.mod_eq_of_lt (by omega)]
    lengths := fun b' => by
      change (update w.buffers b _ b').bytes.length = _
      by_cases hb : b' = b
      · subst hb
        rw [update_self]
        simp only [List.length_append, List.length_take, List.length_drop, hlength]
        omega
      · rw [update_of_ne hb]
        exact h.lengths b'
    owner := fun b' hb' => by
      obtain rfl : b = b' := Option.mem_unique hactive hb'
      change (update w.buffers b _ b).owner = _
      rw [update_self]
      exact hne
    inactive := fun hnone => absurd (hactive.symm.trans hnone) nofun
    room := by
      rw [copyIn_activeBytes]
      omega
    idleRoom := fun hmu => absurd (hi.symm.trans hmu) nofun
    queue := fun job hjob => by
      change (update w.buffers b _ _).owner = _ ∧ JobOk _ (update w.buffers b _ _) _
      rw [update_of_ne (h.queued_ne hjob hqueued)]
      exact h.queue job hjob
    bytes := fun hbad => by
      rw [h.copyIn_contents hactive]
      change w.hashed ++ data.take (w.taken cfg data) = w.parts.flatten ++ _
      rw [← List.append_assoc, ← h.bytes hbad]
    accepted := fun _ hor => by
      rcases hor with hmu | hc
      · exact absurd (hi.symm.trans hmu) nofun
      · exact hclosed hc
    sent := fun _ hc => hclosed hc }

theorem Kept.copyIn {data : Bytes} (hj : j ≠ i) (hactive : w.active = some b)
    (hopen : w.jobsClosed = false) (hinv : Inv cfg (w.copyIn cfg b data)) : Kept cfg j w (w.copyIn cfg b data) :=
  { Kept.refl cfg j w with
    inv := fun _ => hinv
    writeMu := fun hmu => absurd (Option.mem_unique hmu hi) hj
    closed := fun hc => absurd (hopen.symm.trans hc) nofun
    own := fun b' hb' => by
      refine update_of_ne ?_ _ _
      rintro rfl
      exact absurd ((h.owner _ hactive).symm.trans hb') nofun }

/-- The writer sends the part, the first that may be short. -/
theorem Inv.enqueueActive (hactive : w.active = some b)
    (hbytes : w.activeBytes ≠ 0) (hopen : w.jobsClosed = false) (hfull : ∀ p ∈ w.parts, p.length = cfg.partSize) :
    Inv cfg (w.enqueueActive b) :=
  have hlength := h.lengths b
  have hroom := h.room
  have howner : (w.buffers b).owner = .active := h.owner b hactive
  have hqueued : (w.buffers b).owner ≠ .queued := by rw [howner]; nofun
  have hclosed : ∀ {p : Prop}, w.jobsClosed = true → p := fun hc => absurd (hopen.symm.trans hc) nofun
  have hpart : (w.contents b w.activeBytes).length = w.activeBytes := by
    rw [World.contents, List.length_take, hlength]
    omega
  have hparts : w.parts <+: (w.enqueueActive b).parts := ⟨_, rfl⟩
  { h with
    lengths := fun b' => by
      change (setOwner _ _ _ _).bytes.length = _
      rw [setOwner_bytes]
      exact h.lengths b'
    owner := nofun
    inactive := fun _ => rfl
    room := Nat.zero_le _
    idleRoom := fun hmu => absurd (hi.symm.trans hmu) nofun
    number := by
      change w.nextPart + 1 = (w.parts ++ [_]).length + 1
      rw [h.number, List.length_append, List.length_singleton]
    parts := by
      refine ⟨fun p hp => ?_, fun p hp => ?_⟩
      · rcases mem_concat.1 hp with hp | rfl
        · exact h.parts.1 p hp
        · rw [hpart]
          omega
      · change p ∈ (w.parts ++ [_]).dropLast at hp
        rw [List.dropLast_concat] at hp
        exact hfull p hp
    full := fun hmu => absurd (hi.symm.trans hmu) nofun
    queue := fun job hjob => by
      change (setOwner _ _ _ _).owner = _ ∧ JobOk _ (setOwner _ _ _ _) _
      rcases mem_concat.1 hjob with hjob | rfl
      · rw [setOwner_of_ne _ (h.queued_ne hjob hqueued)]
        exact ⟨(h.queue job hjob).1, (h.queue job hjob).2.mono hparts⟩
      · refine ⟨by rw [setOwner_self], ⟨w.parts.length, h.number, ?_⟩, ?_⟩
        · rw [setOwner_bytes]
          exact List.getElem?_concat_length
        · rw [setOwner_bytes, hlength]
          exact hroom
    distinct := by
      change ((w.jobs ++ [_]).map PartJob.buffer).Nodup
      rw [List.map_append, List.nodup_append]
      refine ⟨h.distinct, List.pairwise_singleton _ _, fun x hx y hy => ?_⟩
      obtain ⟨job, hjob, rfl⟩ := List.mem_map.1 hx
      rw [List.mem_singleton.1 hy]
      exact h.queued_ne hjob hqueued
    receipts := fun k r hr => by
      obtain ⟨hnumber, n, part, hk, hget, hfor⟩ := h.receipts k r hr
      exact ⟨hnumber, n, part, hk, getElem?_append_of_some hget _, hfor⟩
    bytes := fun hbad => by
      rw [World.activeContents_none rfl, List.append_nil]
      change w.hashed = (w.parts ++ [w.contents b w.activeBytes]).flatten
      rw [List.flatten_append, List.flatten_singleton, h.bytes hbad, World.activeContents_some hactive]
      rfl
    sent := fun _ hc => hclosed hc
    requests := fun request hmem => hclosed (h.called ⟨request, hmem⟩).2
    retry := fun hc => hclosed (h.called hc).2 }

theorem Kept.enqueueActive (hj : j ≠ i) (hactive : w.active = some b)
    (hopen : w.jobsClosed = false) (hinv : Inv cfg (w.enqueueActive b)) : Kept cfg j w (w.enqueueActive b) :=
  { Kept.refl cfg j w with
    inv := fun _ => hinv
    writeMu := fun hmu => absurd (Option.mem_unique hmu hi) hj
    closed := fun hc => absurd (hopen.symm.trans hc) nofun
    parts := ⟨_, rfl⟩
    own := fun b' hb' => by
      refine setOwner_of_ne _ ?_
      rintro rfl
      exact absurd ((h.owner _ hactive).symm.trans hb') nofun }

end

/-- The jobs are closed once nothing is left to send. -/
theorem Inv.closeJobs (h : Inv cfg w) (hstate : w.state ≠ .opened) (hcontents : ¬Bad w.state → w.activeContents = [])
    (haccepted : ¬Bad w.state → w.hashed = written w.log) : Inv cfg { w with jobsClosed := true } :=
  { h with
    settled := fun hs => ⟨(h.settled hs).1, rfl⟩
    sealedJobs := fun _ => rfl
    openJobs := fun _ => hstate
    called := fun hc => ⟨(h.called hc).1, rfl⟩
    full := nofun
    accepted := fun hbad _ => haccepted hbad
    sent := fun hbad _ => hcontents hbad }

theorem Kept.closeJobs (hi : w.writeMu = some i) (hj : j ≠ i) (hinv : Inv cfg { w with jobsClosed := true }) :
    Kept cfg j w { w with jobsClosed := true } :=
  { Kept.refl cfg j w with
    inv := fun _ => hinv
    writeMu := fun hmu => absurd (Option.mem_unique hmu hi) hj
    closed := fun _ => ⟨rfl, rfl, rfl, rfl⟩ }

omit [Hashes] in
theorem discardAndClose_none (h : w.active = none) : w.discardAndClose = { w with jobsClosed := true } := by
  simp only [World.discardAndClose, h]

omit [Hashes] in
theorem discardAndClose_some (h : w.active = some b) : w.discardAndClose =
    { w with buffers := setOwner w.buffers b .idle, active := none, activeBytes := 0, jobsClosed := true } := by
  simp only [World.discardAndClose, h]

/-- The part is dropped when the upload cannot succeed any more. -/
theorem Inv.discardAndClose (h : Inv cfg w) (hbad : Bad w.state) : Inv cfg w.discardAndClose := by
  have hopened : w.state ≠ .opened := by
    rintro hs
    rw [hs] at hbad
    exact absurd hbad (by decide)
  rcases Option.eq_none_or_eq_some w.active with hactive | ⟨b, hactive⟩
  · rw [discardAndClose_none hactive]
    exact h.closeJobs hopened (absurd hbad) (absurd hbad)
  · rw [discardAndClose_some hactive]
    have hqueued : (w.buffers b).owner ≠ .queued := by rw [h.owner b hactive]; nofun
    exact { h with
      settled := fun hs => ⟨(h.settled hs).1, rfl⟩
      sealedJobs := fun _ => rfl
      openJobs := fun _ => hopened
      called := fun hc => ⟨(h.called hc).1, rfl⟩
      lengths := fun b' => by
        dsimp only
        rw [setOwner_bytes]
        exact h.lengths b'
      owner := nofun
      inactive := fun _ => rfl
      room := Nat.zero_le _
      idleRoom := fun _ => cfg.partSize_pos
      full := nofun
      queue := fun job hjob => by
        dsimp only
        rw [setOwner_of_ne _ (h.queued_ne hjob hqueued)]
        exact h.queue job hjob
      bytes := absurd hbad
      accepted := absurd hbad
      sent := absurd hbad }

theorem Kept.discardAndClose (h : Inv cfg w) (hbad : Bad w.state) (hi : w.writeMu = some i) (hj : j ≠ i) :
    Kept cfg j w w.discardAndClose := by
  have hinv := h.discardAndClose hbad
  rcases Option.eq_none_or_eq_some w.active with hactive | ⟨b, hactive⟩
  · rw [discardAndClose_none hactive] at hinv ⊢
    exact Kept.closeJobs hi hj hinv
  · rw [discardAndClose_some hactive] at hinv ⊢
    exact { Kept.refl cfg j w with
      inv := fun _ => hinv
      writeMu := fun hmu => absurd (Option.mem_unique hmu hi) hj
      closed := fun _ => ⟨rfl, rfl, rfl, rfl⟩
      own := fun b' hb' => by
        refine setOwner_of_ne _ ?_
        rintro rfl
        exact absurd ((h.owner _ hactive).symm.trans hb') nofun }

/-! ## The workers -/

/-- A worker takes the next job. -/
theorem Inv.recv {jobs : List PartJob} (h : Inv cfg w) (hjobs : w.jobs = job :: jobs) :
    Inv cfg { w with jobs := jobs, buffers := setOwner w.buffers job.buffer (.thread i) } :=
  have hown : (w.buffers job.buffer).owner = .queued := (h.queue job (by rw [hjobs]; exact List.mem_cons_self)).1
  have hne : ∀ b', w.active = some b' → b' ≠ job.buffer := by
    rintro b' hb' rfl
    exact absurd (hown.symm.trans (h.owner _ hb')) nofun
  have hdistinct : job.buffer ∉ jobs.map PartJob.buffer ∧ (jobs.map PartJob.buffer).Nodup := by
    have := h.distinct
    rwa [hjobs, List.map_cons, List.nodup_cons] at this
  have hcontents : World.activeContents { w with jobs := jobs, buffers := setOwner w.buffers job.buffer (.thread i) } =
      w.activeContents :=
    World.activeContents_congr rfl rfl fun _ _ => setOwner_bytes _ _ _ _
  { h with
    lengths := fun b' => by
      dsimp only
      rw [setOwner_bytes]
      exact h.lengths b'
    owner := fun b' hb' => by
      dsimp only at hb' ⊢
      rw [setOwner_of_ne _ (hne b' hb')]
      exact h.owner b' hb'
    queue := fun job' hjob' => by
      have hbuffer : job'.buffer ≠ job.buffer := fun heq => hdistinct.1 (heq ▸ List.mem_map_of_mem hjob')
      dsimp only
      rw [setOwner_of_ne _ hbuffer]
      exact h.queue job' (by rw [hjobs]; exact List.mem_cons_of_mem _ hjob')
    distinct := hdistinct.2
    bytes := fun hbad => by rw [hcontents]; exact h.bytes hbad
    sent := fun hbad hclosed => by rw [hcontents]; exact h.sent hbad hclosed }

theorem Kept.recv {jobs : List PartJob} (h : Inv cfg w) (hjobs : w.jobs = job :: jobs) :
    Kept cfg j w { w with jobs := jobs, buffers := setOwner w.buffers job.buffer (.thread i) } :=
  have hown : (w.buffers job.buffer).owner = .queued := (h.queue job (by rw [hjobs]; exact List.mem_cons_self)).1
  { Kept.refl cfg j w with
    inv := fun _ => h.recv hjobs
    writeMu := fun hmu => by
      refine ⟨hmu, ?_⟩
      simp only [World.hand]
      cases hb' : w.active with
      | none => rfl
      | some b' =>
        have hne : b' ≠ job.buffer := by
          rintro rfl
          exact absurd (hown.symm.trans (h.owner _ hb')) (by simp)
        simp [setOwner_of_ne _ hne]
    own := fun b' hb' => by
      refine setOwner_of_ne _ ?_
      rintro rfl
      exact absurd (hown.symm.trans hb') (by simp) }

/-- A worker stores the receipt of its part. -/
theorem Inv.storeReceipt {n : Nat} {part : Bytes} {receipt : Receipt} (h : Inv cfg w) (hdone : w.done = false)
    (hnumber : receipt.number = n + 1) (hpart : w.parts[n]? = some part) (hfor : ReceiptFor w.log part receipt) :
    Inv cfg (w.storeReceipt (n + 1) receipt) :=
  have hcalled : ∀ {p : Prop}, CommitCalled w.log → p := fun hc => absurd (hdone.symm.trans (h.called hc).1) nofun
  { h with
    keys := by
      change (((w.receipts.filter _) ++ [(n + 1, receipt)]).map Prod.fst).Nodup
      rw [List.map_append, List.nodup_append]
      refine ⟨h.keys.sublist (List.filter_sublist.map _), List.pairwise_singleton _ _, fun x hx y hy => ?_⟩
      obtain ⟨entry, hentry, rfl⟩ := List.mem_map.1 hx
      rw [List.map_singleton, List.mem_singleton] at hy
      rw [hy]
      exact of_decide_eq_true (List.mem_filter.1 hentry).2
    receipts := fun k r hr => by
      rcases List.mem_append.1 hr with hr | hr
      · exact h.receipts k r (List.mem_filter.1 hr).1
      · obtain ⟨rfl, rfl⟩ := Prod.mk.inj (List.mem_singleton.1 hr)
        exact ⟨hnumber, n, part, rfl, hpart, hfor⟩
    retry := fun hc => hcalled hc }

theorem Kept.storeReceipt {number : Nat} {receipt : Receipt} (hdone : w.done = false)
    (hinv : Inv cfg (w.storeReceipt number receipt)) : Kept cfg j w (w.storeReceipt number receipt) :=
  { Kept.refl cfg j w with
    inv := fun _ => hinv
    done := fun hd => absurd (hdone.symm.trans hd) nofun }

theorem Kept.exit {n : Nat} (hj : j ≠ .worker n) : Kept cfg j w { w with exited := n :: w.exited } :=
  { Kept.refl cfg j w with
    inv := fun h => { h with workers := fun hd m hm => List.mem_cons_of_mem _ (h.workers hd m hm) }
    exited := fun m hm hnot hmem => by
      rcases List.mem_cons.1 hmem with rfl | hmem
      · exact hj hm
      · exact hnot hmem }

/-- What the world does on its own. -/
theorem Kept.tick {w' : World} (h : Tick cfg w w') (hinv : Inv cfg w) : Kept cfg j w w' := by
  cases h with
  | ctx hnone => exact { Kept.refl cfg j w with inv := fun h => { h with } }
  | done hexited =>
    exact { Kept.refl cfg j w with
      inv := fun h => { h with
        settled := fun hs => ⟨rfl, (h.settled hs).2⟩
        workers := fun _ => hexited
        called := fun hc => ⟨rfl, (h.called hc).2⟩ }
      done := fun _ => ⟨rfl, rfl⟩ }
  | @pool b buffer hold hnew hlength =>
    refine Kept.setBuffers hinv (fun b' => ?_) fun b' hb' => update_of_ne ?_ _ _
    · by_cases hb : b' = b
      · subst hb
        rw [update_self]
        exact hlength
      · rw [update_of_ne hb]
        exact hinv.lengths b'
    · rintro rfl
      rcases hold with ho | ho <;> rw [ho] at hb' <;> simp at hb'

end ObjLog.Stream
