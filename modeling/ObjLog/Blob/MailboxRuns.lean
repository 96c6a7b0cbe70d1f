import Mathlib.Logic.Function.Basic
import ObjLog.Blob.Mailbox
import ObjLog.Catengine.History
/-!
# Runs of a retention mailbox

Any number of callers, each making one `RequestRetention` call, interleaved
operation by operation. `Reaches.ok` is the run lemma: in every reachable state
the files rise and each caller is in order. `Sample.play` computes the state
that a given schedule of a small mailbox leads to.
-/

namespace ObjLog.Blob

open Lib Pmeta Blobstore
open Catengine (Foreign)

section
variable [Json] [Hashes] {streamID path : String} {partition : UInt32} {i : Nat} {box box' : Box}

/-- One caller. `stop` is the number of bodies the mailbox had held when the call returned. -/
inductive Mode where
  | idle
  | requesting (request : RetentionRequest) (prog : Effects (Except Err RetentionRequest))
  | returned (request : RetentionRequest) (result : Except Err RetentionRequest) (stop : Nat)

structure State where
  box : Box
  callers : Nat → Mode

/-- One step of caller `i`. Callers share the mailbox, not the number of attempts. -/
inductive Local (streamID path : String) (partition : UInt32) (i : Nat) (box : Box) : Mode → Box → Mode → Prop
  | start (opts : Options) (request : RetentionRequest) : opts.streamID = streamID →
      retentionRequestPath opts.catalogPrefix opts.streamID partition = path →
      Local streamID path partition i box .idle box (.requesting request (requestRetention opts partition request).run)
  | operate {request : RetentionRequest} {op : Op} {k : op.Answer → Effects (Except Err RetentionRequest)}
      {a : op.Answer} {box' : Box} : Act path i box op a box' →
      Local streamID path partition i box (.requesting request (.op op k)) box' (.requesting request (k a))
  | finish {request : RetentionRequest} {r : Except Err RetentionRequest} :
      Local streamID path partition i box (.requesting request (.ret r)) box (.returned request r box.length)

/-- The states of a mailbox that starts empty. -/
inductive Reaches (streamID path : String) (partition : UInt32) : State → Prop
  | start : Reaches streamID path partition ⟨[], fun _ => .idle⟩
  | step {σ : State} {i : Nat} {box : Box} {mode : Mode} : Reaches streamID path partition σ →
      Local streamID path partition i σ.box (σ.callers i) box mode →
      Reaches streamID path partition ⟨box, Function.update σ.callers i mode⟩

/-- Each caller is in order. -/
def CallerOk (streamID path : String) (partition : UInt32) (i : Nat) (box : Box) : Mode → Prop
  | .idle => Unposted i box
  | .requesting request prog => (mailbox streamID path partition i).wp
      (fun r b => Answered streamID partition i request b r) prog box
  | .returned request result stop => stop ≤ box.length ∧ Answered streamID partition i request (box.take stop) result ∧
      Unposted i (box.drop stop)

omit [Hashes] in
theorem CallerOk.rely {mode : Mode} (h : CallerOk streamID path partition i box mode)
    (hr : Rely streamID partition i box box') : CallerOk streamID path partition i box' mode := by
  cases mode with
  | idle => exact Unposted.rely h hr
  | requesting request prog => exact Env.wp_rely h hr
  | returned request result stop =>
    obtain ⟨hstop, hans, hrest⟩ := h
    obtain ⟨more, rfl, hmore⟩ := hr.adds
    refine ⟨by simp; omega, by rwa [List.take_append_of_le_length hstop], fun p hp => ?_⟩
    rw [List.drop_append_of_le_length hstop] at hp
    rcases List.mem_append.1 hp with hp | hp
    · exact hrest p hp
    · exact hmore p hp

/-- One step of a caller: what the others may rely on, and the caller stays in order. -/
theorem Local.ok {mode mode' : Mode} (h : Local streamID path partition i box mode box' mode')
    (hrising : Rising streamID partition box) (hok : CallerOk streamID path partition i box mode) :
    Moves streamID partition i box box' ∧ CallerOk streamID path partition i box' mode' := by
  cases h with
  | start opts request hs hpath =>
    subst hs
    refine ⟨Moves.refl _, Env.wp_mono ?_ (wpE_requestRetention hpath hrising hok)⟩
    rintro (e | r) b hb
    · exact hb
    · exact hb
  | operate ha => exact Env.wp_step hok ha
  | finish =>
    refine ⟨Moves.refl _, Nat.le_refl _, ?_, fun p hp => ?_⟩
    · rw [List.take_length]
      exact Env.wp_done (Q := fun r b => Answered _ _ i _ b r) hok
    · rw [List.drop_length] at hp
      cases hp

/-- In every reachable state the files rise and each caller is in order. -/
theorem Reaches.ok {σ : State} (h : Reaches streamID path partition σ) :
    Rising streamID partition σ.box ∧ ∀ i, CallerOk streamID path partition i σ.box (σ.callers i) := by
  induction h with
  | start =>
    refine ⟨⟨fun p hp => ?_, .nil⟩, fun i p hp => ?_⟩
    · cases hp
    · cases hp
  | @step σ i _ _ _ hlocal ih =>
    obtain ⟨hrising, hcallers⟩ := ih
    obtain ⟨hmoves, hok⟩ := hlocal.ok hrising (hcallers i)
    refine ⟨hmoves.rising hrising, fun j => ?_⟩
    dsimp only
    by_cases hj : j = i
    · subst hj
      rw [Function.update_self]
      exact hok
    · rw [Function.update_of_ne hj]
      exact (hcallers j).rely (hmoves.rely (Ne.symm hj))

end

/-! ## Callers by a schedule -/

namespace Sample

/-- The hash functions of the engine's samples. -/
@[reducible] def hashes : Hashes := Catengine.Sample.hashes

/-- Characters as numbers of four bytes. -/
def putChars (l : List Char) : Bytes := l.flatMap fun c => putUint32 c.val

def getChars : Nat → Bytes → List Char
  | 0, _ => []
  | n + 1, b => Char.ofNat (uint32 (b.take 4)).toNat :: getChars n (b.drop 4)

theorem getChars_putChars (l : List Char) : getChars ((putChars l).length / 4) (putChars l) = l := by
  induction l with
  | nil => rfl
  | cons c l ih =>
    have hval : (uint32 (putUint32 c.val)).toNat = c.toNat := by rw [uint32_put]; rfl
    have hcons : putChars (c :: l) = putUint32 c.val ++ putChars l := rfl
    have hlen : (putUint32 c.val ++ putChars l).length / 4 = (putChars l).length / 4 + 1 := by
      rw [List.length_append, length_putUint32]
      omega
    rw [hcons, hlen, getChars, List.take_left' (length_putUint32 _), List.drop_left' (length_putUint32 _), hval,
      Char.ofNat_toNat, ih]

/-- The fields of fixed width, then the stream id. -/
@[reducible] def json : Json where
  marshal f := putUint16 f.version ++ (putUint32 f.partition ++ (putUint64 f.policyVersion ++ (putUint64 f.beforeLSN ++
    (putInt64 f.createdUnixMS ++ putChars f.streamID.toList))))
  unmarshal b := .ok ⟨uint16 (slice b 0 2),
    String.ofList (getChars ((slice b 30 b.length).length / 4) (slice b 30 b.length)),
    uint32 (slice b 2 6), uint64 (slice b 6 14), uint64 (slice b 14 22), int64 (slice b 22 30)⟩
  unmarshal_marshal f := by
    have hstream := getChars_putChars f.streamID.toList
    generalize putChars f.streamID.toList = text at hstream ⊢
    simp (disch := simp) [slice_right, slice_left, slice_self, hstream]

/-- What the mailbox does with an operation of a caller. -/
inductive Fate where
  | served | lost | refused
deriving DecidableEq

section
variable [Json] [Hashes]

def noAnswer : Err := .bare .transport

def respond (path : String) (i : Nat) (box : Box) (fate : Fate) : (op : Op) → Option (op.Answer × Box)
  | .ctxErr => some (if fate = .served then none else some noAnswer, box)
  | .wait => some (if fate = .served then none else some noAnswer, box)
  | .get key =>
    if key ≠ path then none
    else some (if fate = .served then box.read else .error noAnswer, box)
  | .put _ _ => none
  | .cas key expected body =>
    if key ≠ path then none
    else if fate = .refused then some (.error noAnswer, box)
    else if expected = box.length then
      some (if fate = .served then .ok (⟨body, box.length + 1⟩, true) else .error noAnswer, box ++ [⟨i, body⟩])
    else some (if fate = .served then .ok (box.current.getD ⟨[], 0⟩, false) else .error noAnswer, box)

omit [Json] [Hashes] in
theorem respond_act {path : String} {i : Nat} {box box' : Box} {fate : Fate} {op : Op} {a : op.Answer}
    (h : respond path i box fate op = some (a, box')) : Act path i box op a box' := by
  have hf : Foreign noAnswer := .inl rfl
  cases op with
  | ctxErr =>
    cases h
    split
    · exact .live
    · exact .ended hf
  | wait =>
    cases h
    split
    · exact .waited
    · exact .interrupted hf
  | get key =>
    dsimp only [respond] at h
    split at h
    · cases h
    rename_i hkey
    obtain rfl := Decidable.not_not.1 hkey
    cases h
    split
    · exact .read
    · exact .unread hf
  | put key body => cases h
  | cas key expected body =>
    dsimp only [respond] at h
    split at h
    · cases h
    rename_i hkey
    obtain rfl := Decidable.not_not.1 hkey
    split at h
    · cases h
      exact .unswapped hf
    split at h
    · rename_i heq
      cases h
      split
      · exact .swap heq
      · exact .swapLost hf heq
    · rename_i hne
      cases h
      split
      · exact .mismatch hne
      · exact .unswapped hf

/-- Start the call of a caller, serve its next operation, or let it return. -/
inductive Event where
  | start (request : RetentionRequest)
  | op (fate : Fate)
  | finish

def opts : Options := ⟨"c", "", 3⟩

def path : String := retentionRequestPath opts.catalogPrefix opts.streamID 7

def advance (i : Nat) (box : Box) : Mode → Event → Box × Mode
  | .idle, .start request => (box, .requesting request (requestRetention opts 7 request).run)
  | .requesting request (.op op k), .op fate =>
    match respond path i box fate op with
    | some (a, box') => (box', .requesting request (k a))
    | none => (box, .requesting request (.op op k))
  | .requesting request (.ret r), .finish => (box, .returned request r box.length)
  | mode, _ => (box, mode)

theorem advance_local (i : Nat) (box : Box) (mode : Mode) (event : Event) :
    Local "" path 7 i box mode (advance i box mode event).1 (advance i box mode event).2 ∨
      advance i box mode event = (box, mode) := by
  unfold advance
  split
  · exact .inl (.start opts _ rfl rfl)
  · split
    · rename_i h
      exact .inl (.operate (respond_act h))
    · exact .inr rfl
  · exact .inl .finish
  · exact .inr rfl

def play (σ : State) (schedule : List (Nat × Event)) : State :=
  schedule.foldl (fun σ e => ⟨(advance e.1 σ.box (σ.callers e.1) e.2).1,
    Function.update σ.callers e.1 (advance e.1 σ.box (σ.callers e.1) e.2).2⟩) σ

theorem reaches_play {σ : State} (h : Reaches "" path 7 σ) (schedule : List (Nat × Event)) :
    Reaches "" path 7 (play σ schedule) := by
  induction schedule generalizing σ with
  | nil => exact h
  | cons e schedule ih =>
    refine ih ?_
    rcases advance_local e.1 σ.box (σ.callers e.1) e.2 with hstep | hsame
    · exact .step h hstep
    · dsimp only
      rw [hsame]
      dsimp only
      rw [Function.update_eq_self]
      exact h

end

def older : RetentionRequest := ⟨1, 1, 5, 0⟩

def newer : RetentionRequest := ⟨1, 2, 9, 0⟩

/-- Callers 0 and 1 find no file. The swap of caller 0 is stored and its answer lost; that of caller 1
meets the older file and is repeated. Caller 2 finds its request stored, caller 3 is refused each time,
and caller 0 learns that its file was replaced. -/
def schedule : List (Nat × Event) := [
  (0, .start older), (1, .start newer), (2, .start newer), (3, .start ⟨1, 3, 9, 0⟩),
  (0, .op .served), (0, .op .served), (1, .op .served), (1, .op .served),
  (0, .op .lost), (1, .op .served), (1, .op .served), (1, .op .served), (1, .finish),
  (2, .op .served), (2, .op .served), (2, .finish),
  (3, .op .served), (3, .op .served), (3, .op .refused), (3, .op .served), (3, .op .refused), (3, .op .served),
  (3, .op .refused), (3, .op .served), (3, .finish),
  (0, .op .served), (0, .op .served), (0, .finish)]

def final : State := letI := json; letI := hashes; play ⟨[], fun _ => .idle⟩ schedule

theorem reaches_final : letI := json; letI := hashes; Reaches "" path 7 final :=
  letI := json
  letI := hashes
  reaches_play .start schedule

/-- How the call of a caller ended. -/
def reply : Mode → Option (RetentionRequest × Except Err RetentionRequest × Nat)
  | .returned request result stop => some (request, result, stop)
  | _ => none

theorem returned_of_reply {mode : Mode} {request : RetentionRequest} {result : Except Err RetentionRequest} {stop : Nat}
    (h : reply mode = some (request, result, stop)) : mode = .returned request result stop := by
  cases mode with
  | returned => cases h; rfl
  | _ => cases h

end Sample

/-! ## The mailbox is monotone -/

/-- The stored files rise, a successful call found or stored its request before it returned, and a call
that fails otherwise than by a regression or an unknown outcome stored nothing. -/
theorem retention_mailbox_monotone [Json] [Hashes] {streamID path : String} {partition : UInt32} {σ : State}
    (h : Reaches streamID path partition σ) :
    (∀ (n k : Nat) (p q : Posting), n < k → σ.box[n]? = some p → σ.box[k]? = some q → ∃ f g,
      p.Holds streamID partition f ∧ q.Holds streamID partition g ∧ f.policyVersion < g.policyVersion ∧
      f.beforeLSN ≤ g.beforeLSN) ∧
    (∀ i request r stop, σ.callers i = .returned request (.ok r) stop → ∃ (n : Nat) (p : Posting) (f : RetentionFile),
      n < stop ∧ σ.box[n]? = some p ∧ p.Holds streamID partition f ∧ f.policyVersion = request.policyVersion ∧ f.beforeLSN = request.beforeLSN) ∧
    (∀ i request e stop, σ.callers i = .returned request (.error e) stop → e.is .retentionRegression = false →
      e.is .commitIndeterminate = false → ∀ p ∈ σ.box, p.caller ≠ i) := by
  obtain ⟨hrising, hcallers⟩ := h.ok
  refine ⟨fun n k p q hnk hp hq => ?_, fun i request r stop hi => ?_, fun i request e stop hi hregression hunknown => ?_⟩
  · obtain ⟨f, hf⟩ := hrising.holds p (List.mem_of_getElem? hp)
    obtain ⟨g, hg⟩ := hrising.holds q (List.mem_of_getElem? hq)
    obtain ⟨hn, rfl⟩ := List.getElem?_eq_some_iff.1 hp
    obtain ⟨hk, rfl⟩ := List.getElem?_eq_some_iff.1 hq
    exact ⟨f, g, hf, hg, List.pairwise_iff_getElem.1 hrising.rises n k hn hk hnk f g hf hg⟩
  · have hok := hcallers i
    rw [hi] at hok
    obtain ⟨-, ⟨-, -, p, hp, f, hf, hv, hb⟩, -⟩ := hok
    obtain ⟨n, hn, hpn⟩ := List.mem_take_iff_getElem.1 hp
    exact ⟨n, p, f, by omega, List.getElem?_eq_some_iff.2 ⟨by omega, hpn⟩, hf, hv, hb⟩
  · have hok := hcallers i
    rw [hi] at hok
    obtain ⟨-, hans, hrest⟩ := hok
    rcases hans with h | h | hunposted
    · rw [hregression] at h
      cases h
    · rw [hunknown] at h
      cases h
    · intro p hp
      rw [← List.take_append_drop stop σ.box] at hp
      rcases List.mem_append.1 hp with hp | hp
      · exact hunposted p hp
      · exact hrest p hp

/-- Two files are stored; caller 2 succeeds without storing one, caller 3 fails and has stored none. -/
theorem retention_mailbox_monotone_replaced : letI := Sample.json
    letI := Sample.hashes
    Reaches "" Sample.path 7 Sample.final ∧ Sample.final.box.map (·.caller) = [0, 1] ∧
    (∃ p q f g, Sample.final.box = [p, q] ∧ p.Holds "" 7 f ∧ q.Holds "" 7 g ∧ f.policyVersion < g.policyVersion) ∧
    (∃ p ∈ Sample.final.box, ∃ f, p.Holds "" 7 f ∧ f.policyVersion = Sample.newer.policyVersion) ∧
    ∀ p ∈ Sample.final.box, p.caller ≠ 3 := by
  let _ := Sample.json
  let _ := Sample.hashes
  obtain ⟨hrise, hok, herr⟩ := retention_mailbox_monotone Sample.reaches_final
  have hbox : Sample.final.box.map (·.caller) = [0, 1] ∧
      Sample.reply (Sample.final.callers 2) = some (Sample.newer, .ok Sample.newer, 2) ∧
      Sample.reply (Sample.final.callers 3) = some (⟨1, 3, 9, 0⟩,
        .error (.within "request retention partition=7" Sample.noAnswer), 2) := by decide +kernel
  obtain ⟨hauthors, htwo, hthree⟩ := hbox
  refine ⟨Sample.reaches_final, hauthors, ?_, ?_, ?_⟩
  · obtain ⟨p, rest, hp, -, hrest⟩ := List.map_eq_cons_iff.1 hauthors
    obtain ⟨q, rest', rfl, -, hnil⟩ := List.map_eq_cons_iff.1 hrest
    obtain rfl := List.map_eq_nil_iff.1 hnil
    obtain ⟨f, g, hf, hg, hv, -⟩ := hrise 0 1 p q (by decide) (by rw [hp]; rfl) (by rw [hp]; rfl)
    exact ⟨p, q, f, g, hp, hf, hg, hv⟩
  · obtain ⟨n, p, f, -, hp, hf, hv, -⟩ := hok 2 _ _ _ (Sample.returned_of_reply htwo)
    exact ⟨p, List.mem_of_getElem? hp, f, hf, hv⟩
  · exact herr 3 _ _ _ (Sample.returned_of_reply hthree) rfl rfl

end ObjLog.Blob
