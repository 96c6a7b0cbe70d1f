import Mathlib.Data.List.Basic
import Mathlib.Logic.Relation
import ObjLog.Reader.Refresh
/-!
# What shared refreshes return and store

Every result of a load is the head that was the newest when the load read the
catalog (`Genuine`). A call that joins a load already under way can therefore
get a head from before it began; it does so exactly when a head was committed in
between. A load that all its waiters left goes on, and can put an old head over
a newer one; without such loads the stored heads only advance.
-/

namespace ObjLog.Reader

open Pmeta

variable {call : LoadCall} {phase : CallerPhase}

variable {t : Snapshot} {heads : List (Nat × PartitionHead)} {c : Caller} {i l : Nat} {a : Action}

namespace State

/-! ## What holds of every state -/

/-- How many of the heads were committed before time `t`. -/
def before (heads : List (Nat × PartitionHead)) (t : Nat) : Nat := heads.countP fun e => e.1 < t

/-- The partition has had this head, as its head number `generation`. -/
def Known (heads : List (Nat × PartitionHead)) (snapshot : Snapshot) : Prop :=
  ∃ n e, snapshot.generation = n + 1 ∧ heads[n]? = some e ∧ e.2 = snapshot.head

/-- A result of a load: the head that was the newest when it read. -/
structure Genuine (heads : List (Nat × PartitionHead)) (clock : Nat) (v : HeadSnapshot) : Prop where
  known : Known heads v.snapshot
  past : v.readAt ≤ clock
  newest : v.snapshot.generation = before heads v.readAt

def GenuineResult (heads : List (Nat × PartitionHead)) (clock : Nat) (result : Except Err HeadSnapshot) : Prop :=
  ∀ v, result = .ok v → Genuine heads clock v

def LoadOk (s : State) (call : LoadCall) : Prop :=
  match call.phase with
  | .starting => True
  | .reading previous => ∀ found, previous = some found → Known (s.catalog call.partition) found.1
  | .read snapshot readAt => Genuine (s.catalog call.partition) s.clock ⟨snapshot, 0, readAt⟩
  | .loaded result | .settled result | .finished result => GenuineResult (s.catalog call.partition) s.clock result

/-- What a caller in this phase knows. -/
def PhaseOk (heads : List (Nat × PartitionHead)) (clock : Nat) (loads : List LoadCall) (partition : UInt32)
    (request : Request) : CallerPhase → Prop
  | .called | .refreshing | .joining => True
  | .waiting l => ∃ call, loads[l]? = some call ∧ call.partition = partition
  | .leaving _ result | .cancelling _ result | .returned result => GenuineResult heads clock result
  | .served _ => request.latest = false

/-- The call began at a time of the past, and `began` was the newest head then. -/
structure CallerFacts (heads : List (Nat × PartitionHead)) (clock : Nat) (loads : List LoadCall) (c : Caller) : Prop where
  past : c.beganAt ≤ clock
  generation : c.beganGeneration = before heads c.beganAt
  known : ∀ h, c.began = some h → Known heads h
  phase : PhaseOk heads clock loads c.partition c.request c.phase

def CallerOk (s : State) (c : Caller) : Prop := CallerFacts (s.catalog c.partition) s.clock s.loads c

structure Inv (s : State) : Prop where
  stamped : ∀ p, ∀ e ∈ s.catalog p, e.1 < s.clock
  ordered : ∀ p, (s.catalog p).Pairwise fun e e' => Follows e.2 e'.2
  apart : s.coordinator.Apart
  stored : ∀ p t, s.coordinator.stored p = some t → Known (s.catalog p) t
  registered : ∀ p l, s.calls p = some l → ∃ call, s.loads[l]? = some call ∧ call.partition = p
  loads : ∀ call ∈ s.loads, s.LoadOk call
  callers : ∀ c ∈ s.callers, s.CallerOk c

/-- The changes that actions are made of, all but commits and updates of a stored head. -/
inductive Move : State → State → Prop
  | coordinator {s : State} {c : Coordinator} : Coordinator.Keeps s.coordinator c none → Move s { s with coordinator := c }
  | closing {s : State} (e : Option Err) (loads : List Nat) : Move s { s with closeErr := e, closing := loads }
  | load {s : State} {l : Nat} {call call' : LoadCall} : s.loads[l]? = some call → call'.partition = call.partition →
      s.LoadOk call' → (∀ snapshot readAt, call'.phase = .read snapshot readAt →
        call.phase = .read snapshot readAt ∨ snapshot.generation = (s.catalog call.partition).length) →
      Move s (s.setLoad l call')
  | newCall {s : State} (p : UInt32) : Move s (s.newCall p)
  | forgotten {s : State} (p : UInt32) : Move s { s with calls := Function.update s.calls p none }
  | caller {s : State} {i : Nat} {c : Caller} {phase : CallerPhase} : s.CallerOk { c with phase := phase } →
      Move s (s.setCaller i c phase)
  | call {s : State} (p : UInt32) (r : Request) :
      Move s { s with callers := s.callers ++ [⟨p, r, s.clock, s.newest p, .called⟩] }

variable {s s' : State} {p : UInt32} {snapshots : Bool}

/-! ### Times -/

theorem before_append (heads : List (Nat × PartitionHead)) (e : Nat × PartitionHead) {t : Nat} (h : t ≤ e.1) :
    before (heads ++ [e]) t = before heads t := by
  simp [before, List.countP_append, Nat.not_lt.2 h]

theorem before_all {t : Nat} (h : ∀ e ∈ heads, e.1 < t) : before heads t = heads.length := by
  simpa [before, List.countP_eq_length] using h

theorem before_split (heads : List (Nat × PartitionHead)) {t u : Nat} (h : u ≤ t) :
    before heads t = before heads u + heads.countP fun e => u ≤ e.1 ∧ e.1 < t := by
  induction heads with
  | nil => rfl
  | cons e heads ih =>
    simp only [before, List.countP_cons, decide_eq_true_eq] at ih ⊢
    split_ifs <;> omega

/-- The later time has at least as many, and as many only if none came in between. -/
theorem before_le_iff (heads : List (Nat × PartitionHead)) (t u : Nat) :
    before heads t ≤ before heads u ↔ t ≤ u ∨ ∀ e ∈ heads, ¬(u ≤ e.1 ∧ e.1 < t) := by
  rcases Nat.le_total t u with h | h
  · rw [before_split heads h]
    simp [h]
  · have hnone : (heads.countP fun e => u ≤ e.1 ∧ e.1 < t) = 0 ↔ ∀ e ∈ heads, ¬(u ≤ e.1 ∧ e.1 < t) := by
      simp [List.countP_eq_zero]
    rw [before_split heads h, ← hnone]
    constructor
    · intro hle
      exact .inr (by omega)
    · rintro (hle | hzero)
      · obtain rfl := Nat.le_antisymm h hle
        have : (heads.countP fun e => u ≤ e.1 ∧ e.1 < u) = 0 := by
          simp only [List.countP_eq_zero, decide_eq_true_eq]
          omega
        omega
      · omega

/-! ### What time keeps -/

/-- A load keeps its number and its partition. -/
def LoadsKept (loads loads' : List LoadCall) : Prop :=
  ∀ (l : Nat) (call : LoadCall), loads[l]? = some call → ∃ call', loads'[l]? = some call' ∧ call'.partition = call.partition

/-- The heads that were there stay, and one may be added. -/
structure Grows (s s' : State) : Prop where
  clock : s.clock ≤ s'.clock
  catalog : ∀ p, s'.catalog p = s.catalog p ∨ ∃ head, s'.catalog p = s.catalog p ++ [(s.clock, head)]

theorem Grows.before (h : Grows s s') {t : Nat} (ht : t ≤ s.clock) :
    before (s'.catalog p) t = before (s.catalog p) t := by
  rcases h.catalog p with heq | ⟨head, heq⟩
  · rw [heq]
  · rw [heq, before_append _ _ ht]

theorem Known.grows (hk : Known (s.catalog p) t) (h : Grows s s') : Known (s'.catalog p) t := by
  obtain ⟨n, e, hn, he, hhead⟩ := hk
  refine ⟨n, e, hn, ?_, hhead⟩
  rcases h.catalog p with heq | ⟨head, heq⟩
  · rw [heq, he]
  · rw [heq, List.getElem?_append_left (List.getElem?_eq_some_iff.1 he).1, he]

theorem Genuine.grows {v : HeadSnapshot} (hv : Genuine (s.catalog p) s.clock v) (h : Grows s s') : Genuine (s'.catalog p) s'.clock v where
  known := hv.known.grows h
  past := hv.past.trans h.clock
  newest := by rw [h.before hv.past, hv.newest]

theorem LoadOk.grows (hc : s.LoadOk call) (h : Grows s s') : s'.LoadOk call := by
  obtain ⟨p, w, cause, phase⟩ := call
  cases phase with
  | starting => trivial
  | reading => exact fun found hfound => Known.grows (hc found hfound) h
  | read => exact Genuine.grows hc h
  | loaded | settled | finished => exact fun v hv => Genuine.grows (hc v hv) h

theorem PhaseOk.grows {r : Request} (hp : PhaseOk (s.catalog p) s.clock s.loads p r phase)
    (h : Grows s s') (hloads : LoadsKept s.loads s'.loads) : PhaseOk (s'.catalog p) s'.clock s'.loads p r phase := by
  cases phase with
  | called | refreshing | joining => trivial
  | waiting l =>
    obtain ⟨call, hcall, rfl⟩ := hp
    exact hloads l call hcall
  | leaving | cancelling | returned => exact fun v hv => Genuine.grows (hp v hv) h
  | served => exact hp

theorem CallerOk.grows (hc : s.CallerOk c) (h : Grows s s') (hloads : LoadsKept s.loads s'.loads) : s'.CallerOk c where
  past := hc.past.trans h.clock
  generation := by rw [h.before hc.past, hc.generation]
  known := fun x hx => (hc.known x hx).grows h
  phase := hc.phase.grows h hloads

theorem Inv.tick (h : Inv s) : Inv { s with clock := s.clock + 1 } := by
  have hgrows : Grows s { s with clock := s.clock + 1 } := ⟨Nat.le_succ _, fun _ => .inl rfl⟩
  exact { h with
    stamped := fun p e he => Nat.lt_succ_of_lt (h.stamped p e he)
    stored := fun p t ht => (h.stored p t ht).grows hgrows
    loads := fun call hcall => (h.loads call hcall).grows hgrows
    callers := fun c hc => (h.callers c hc).grows hgrows fun l call hl => ⟨call, hl, rfl⟩ }

theorem commit_grows {head : PartitionHead} (hc : s.commit p head = some s') :
    Grows s { s' with clock := s.clock + 1 } := by
  unfold State.commit at hc
  split at hc
  · cases hc
    refine ⟨Nat.le_succ _, fun q => ?_⟩
    by_cases hq : q = p
    · subst hq
      exact .inr ⟨head, Function.update_self ..⟩
    · exact .inl (Function.update_of_ne hq ..)
  · cases hc

theorem Inv.commit (h : Inv s) {head : PartitionHead} (hc : s.commit p head = some s') :
    Inv { s' with clock := s.clock + 1 } := by
  have hgrows := commit_grows hc
  unfold State.commit at hc
  split at hc
  · rename_i hmay
    cases hc
    set s' : State :=
      { s with catalog := Function.update s.catalog p (s.catalog p ++ [(s.clock, head)]), clock := s.clock + 1 }
    have hat : s'.catalog p = s.catalog p ++ [(s.clock, head)] := Function.update_self ..
    have hother : ∀ q, q ≠ p → s'.catalog q = s.catalog q := fun q hq => Function.update_of_ne hq ..
    refine { stamped := fun q e he => ?_, ordered := fun q => ?_, apart := h.apart, registered := h.registered
             stored := fun q t ht => (h.stored q t ht).grows hgrows
             loads := fun call hcall => (h.loads call hcall).grows hgrows
             callers := fun c hc => (h.callers c hc).grows hgrows fun l call hl => ⟨call, hl, rfl⟩ }
    · by_cases hq : q = p
      · subst hq
        rw [hat] at he
        rcases Lib.mem_concat.1 he with he | rfl
        · exact Nat.lt_succ_of_lt (h.stamped q e he)
        · exact Nat.lt_succ_self _
      · rw [hother q hq] at he
        exact Nat.lt_succ_of_lt (h.stamped q e he)
    · by_cases hq : q = p
      · subst hq
        rw [hat, List.pairwise_append]
        refine ⟨h.ordered q, List.pairwise_singleton .., fun e he e' he' => ?_⟩
        rw [List.mem_singleton.1 he']
        exact hmay.2 e he
      · rw [hother q hq]
        exact h.ordered q
  · cases hc

/-! ### Steps -/

theorem newest_known (h : s.newest p = some t) : Known (s.catalog p) t ∧ t.generation = (s.catalog p).length := by
  obtain ⟨e, he, rfl⟩ := Option.map_eq_some_iff.1 h
  have hpos : 0 < (s.catalog p).length := List.length_pos_iff.2 fun hnil => by simp [hnil] at he
  refine ⟨⟨(s.catalog p).length - 1, e, by dsimp only; omega, ?_, rfl⟩, rfl⟩
  rw [← he, List.getLast?_eq_getElem?]

/-- The newest head, read now. -/
theorem Inv.genuine_now (h : Inv s) (hk : Known (s.catalog p) t) (hg : t.generation = (s.catalog p).length)
    (g : UInt64) : Genuine (s.catalog p) s.clock ⟨t, g, s.clock⟩ :=
  ⟨hk, Nat.le_refl _, by rw [hg, before_all (h.stamped p)]⟩

theorem Move.inv (h : Inv s) (hm : Move s s') : Inv s' := by
  cases hm with
  | coordinator hk =>
    exact { h with apart := hk.apart, stored := fun p t ht => h.stored p t ((hk.stored p t ht).resolve_right nofun) }
  | closing => exact { h with }
  | @load l call call' hl hp hok hread =>
    have hlt := (List.getElem?_eq_some_iff.1 hl).1
    have hkept : LoadsKept s.loads (s.loads.set l call') := by
      intro k c hc
      by_cases hkl : l = k
      · subst hkl
        rw [hl] at hc
        cases hc
        exact ⟨call', by rw [List.getElem?_set_self hlt], hp⟩
      · exact ⟨c, by rw [List.getElem?_set_ne hkl, hc], rfl⟩
    refine { h with registered := fun q k hk => ?_, loads := fun c hc => ?_, callers := fun c hc => ?_ }
    · obtain ⟨c, hc, rfl⟩ := h.registered q k hk
      exact hkept k c hc
    · rcases List.mem_or_eq_of_mem_set hc with hc | rfl
      · exact h.loads c hc
      · exact hok
    · exact (h.callers c hc).grows ⟨Nat.le_refl _, fun _ => .inl rfl⟩ hkept
  | newCall p =>
    have hkept : LoadsKept s.loads (s.loads ++ [⟨p, 1, none, .starting⟩]) := fun k c hc =>
      ⟨c, by rw [List.getElem?_append_left (List.getElem?_eq_some_iff.1 hc).1, hc], rfl⟩
    refine { h with registered := fun q k hk => ?_, loads := fun c hc => ?_, callers := fun c hc => ?_ }
    · by_cases hq : q = p
      · subst hq
        obtain rfl : s.loads.length = k := by simpa [State.newCall] using hk
        exact ⟨⟨q, 1, none, .starting⟩, by simp [State.newCall], rfl⟩
      · have hk : s.calls q = some k := by simpa [State.newCall, Function.update_of_ne hq] using hk
        obtain ⟨c, hc, rfl⟩ := h.registered q k hk
        exact hkept k c hc
    · rcases Lib.mem_concat.1 hc with hc | rfl
      · exact h.loads c hc
      · trivial
    · exact (h.callers c hc).grows ⟨Nat.le_refl _, fun _ => .inl rfl⟩ hkept
  | forgotten p =>
    refine { h with registered := fun q k hk => h.registered q k ?_ }
    by_cases hq : q = p
    · subst hq
      simp at hk
    · simpa [Function.update_of_ne hq] using hk
  | caller hok =>
    refine { h with callers := fun c hc => ?_ }
    rcases List.mem_or_eq_of_mem_set hc with hc | rfl
    · exact h.callers c hc
    · exact hok
  | call p r =>
    refine { h with callers := fun c hc => ?_ }
    rcases Lib.mem_concat.1 hc with hc | rfl
    · exact h.callers c hc
    · refine ⟨Nat.le_refl _, ?_, fun t ht => (newest_known ht).1, trivial⟩
      rw [before_all (h.stamped p)]
      cases hn : s.newest p with
      | none =>
        have : s.catalog p = [] := by simpa [newest] using hn
        simp [Caller.beganGeneration, this]
      | some t => simp [Caller.beganGeneration, (newest_known hn).2]

open Relation (ReflTransGen)

theorem Moves.inv (h : Inv s) (hm : ReflTransGen Move s s') : Inv s' := by
  induction hm with
  | refl => exact h
  | tail _ hm ih => exact hm.inv ih

theorem CallerOk.to (hc : s.CallerOk c)
    (hp : PhaseOk (s.catalog c.partition) s.clock s.loads c.partition c.request phase) :
    s.CallerOk { c with phase := phase } := { hc with phase := hp }

theorem Inv.caller (h : Inv s) (hc : s.callers[i]? = some c) : s.CallerOk c :=
  h.callers c (List.mem_of_getElem? hc)

theorem Inv.load (h : Inv s) {l : Nat} {call : LoadCall} (hl : s.loads[l]? = some call) : s.LoadOk call :=
  h.loads call (List.mem_of_getElem? hl)

/-- One caller moves to another phase. -/
theorem Inv.moveCaller (h : Inv s) (hc : s.callers[i]? = some c)
    (hp : PhaseOk (s.catalog c.partition) s.clock s.loads c.partition c.request phase) :
    Move s (s.setCaller i c phase) := .caller ((h.caller hc).to hp)

theorem genuineResult_error {clock : Nat} {e : Err} : GenuineResult heads clock (.error e) := nofun

/-- A load's waiters or its context change, not what it has read. -/
theorem Inv.touchLoad (h : Inv s) {call' : LoadCall} (hl : s.loads[l]? = some call)
    (hpart : call'.partition = call.partition) (hphase : call'.phase = call.phase) : Move s (s.setLoad l call') := by
  refine .load hl hpart ?_ fun _ _ hread => .inl (hphase ▸ hread)
  have hok := h.load hl
  unfold LoadOk at hok ⊢
  rw [hpart, hphase]
  exact hok

theorem lookup_moves (h : Inv s) (hc : s.callers[i]? = some c) : ReflTransGen Move s (s.lookup i c) := by
  obtain ⟨hfound, hkeeps⟩ := Coordinator.partitionSnapshot_spec (p := c.partition) h.apart
  have hlooked : Move s { s with coordinator := (s.coordinator.partitionSnapshot c.partition).2 } := .coordinator hkeeps
  have hinv := hlooked.inv h
  have hto : ∀ phase, PhaseOk (s.catalog c.partition) s.clock s.loads c.partition c.request phase → ReflTransGen Move s
      ({ s with coordinator := (s.coordinator.partitionSnapshot c.partition).2 }.setCaller i c phase) := fun phase hp =>
    .tail (.single hlooked) (hinv.moveCaller hc hp)
  -- a cached head is good enough unless the position has reached its end
  have htail : ∀ (startLSN : UInt64) (snapshot : Snapshot), c.request.latest = false →
      PhaseOk (s.catalog c.partition) s.clock s.loads c.partition c.request
        (if startLSN ≥ snapshot.head.nextLSN then .refreshing else .served snapshot) := by
    intro startLSN snapshot hlatest
    split
    · trivial
    · exact hlatest
  unfold State.lookup
  dsimp only
  generalize (s.coordinator.partitionSnapshot c.partition).1 = found
  cases hr : c.request with
  | refresh => exact .single (h.moveCaller hc trivial)
  | head =>
    rcases found with _ | ⟨snapshot, _⟩
    · exact hto _ trivial
    · exact hto _ (by rw [hr]; rfl)
  | read startLSN freshness =>
    cases freshness with
    | other value => exact .single (h.moveCaller hc genuineResult_error)
    | latest => exact hto _ trivial
    | cached =>
      rcases found with _ | ⟨snapshot, _⟩
      · exact hto _ trivial
      · exact hto _ (by rw [hr]; rfl)
    | default | onTail =>
      rcases found with _ | ⟨snapshot, _⟩
      · exact hto _ trivial
      · exact hto _ (htail _ _ (by rw [hr]; rfl))

theorem join_moves (h : Inv s) (hc : s.callers[i]? = some c) : ReflTransGen Move s (s.join i c) := by
  unfold State.join
  split
  · exact .single (h.moveCaller hc genuineResult_error)
  · split
    · rename_i l hl
      split
      · rename_i call hcall
        have hpart : call.partition = c.partition := by
          obtain ⟨call', hcall', hp⟩ := h.registered _ l hl
          rw [hcall] at hcall'
          cases hcall'
          exact hp
        have hmove : Move s (s.setLoad l { call with waiters := call.waiters + 1 }) :=
          h.touchLoad hcall rfl rfl
        refine .tail (.single hmove) ((hmove.inv h).moveCaller hc ⟨{ call with waiters := call.waiters + 1 }, ?_, hpart⟩)
        exact List.getElem?_set_self (List.getElem?_eq_some_iff.1 hcall).1
      · exact .refl
    · have hmove : Move s (s.newCall c.partition) := .newCall c.partition
      exact .tail (.single hmove) ((hmove.inv h).moveCaller hc ⟨⟨c.partition, 1, none, .starting⟩,
        by simp [State.newCall], rfl⟩)

theorem forget_moves (l : Nat) (call : LoadCall) : ReflTransGen Move s (s.forget l call) := by
  unfold State.forget
  split
  · exact .single (.forgotten _)
  · exact .refl

@[simp] theorem forget_same (l : Nat) (call : LoadCall) : (s.forget l call).loads = s.loads ∧
    (s.forget l call).catalog = s.catalog ∧ (s.forget l call).clock = s.clock ∧
    (s.forget l call).callers = s.callers := by
  unfold State.forget
  split <;> exact ⟨rfl, rfl, rfl, rfl⟩

theorem release_moves (h : Inv s) {result : Except Err HeadSnapshot}
    (hc : s.callers[i]? = some c) (hl : s.loads[l]? = some call)
    (hresult : GenuineResult (s.catalog c.partition) s.clock result) :
    ReflTransGen Move s (s.release i c l call result) := by
  have hmove : Move s (s.setLoad l { call with waiters := call.waiters - 1 }) :=
    h.touchLoad hl rfl rfl
  have hinv := hmove.inv h
  unfold State.release
  dsimp only
  split
  · have hforget := forget_moves (s := s.setLoad l { call with waiters := call.waiters - 1 }) l call
    refine ((ReflTransGen.single hmove).trans hforget).tail (Inv.moveCaller (Moves.inv hinv hforget) ?_ ?_)
    · simp only [forget_same]
      exact hc
    · simp only [forget_same]
      exact hresult
  · exact .tail (.single hmove) (hinv.moveCaller hc hresult)

theorem answer_moves (h : Inv s) {previous : Option (Snapshot × UInt64)} {a : Answer}
    (hl : s.loads[l]? = some call) (hphase : call.phase = .reading previous)
    (ha : s.answer snapshots l call previous a = some s') : ReflTransGen Move s s' := by
  have hprevious : ∀ found, previous = some found → Known (s.catalog call.partition) found.1 := by
    have := h.load hl
    unfold LoadOk at this
    rw [hphase] at this
    exact this
  cases a with
  | fails e =>
    cases ha
    exact .single (.load hl rfl genuineResult_error nofun)
  | missing =>
    simp only [State.answer] at ha
    split at ha
    · cases ha
      exact .single (.load hl rfl genuineResult_error nofun)
    · cases ha
  | unchanged =>
    simp only [State.answer] at ha
    split at ha
    · rename_i snapshot generation
      split at ha
      · rename_i hsame
        cases ha
        refine .single (.load hl rfl ?_ nofun)
        rintro v ⟨⟩
        exact h.genuine_now (hprevious _ rfl) hsame.2 generation
      · cases ha
    · cases ha
  | snapshot =>
    obtain ⟨snapshot, hsnapshot, rfl⟩ := Option.map_eq_some_iff.1 ha
    obtain ⟨hknown, hgeneration⟩ := newest_known hsnapshot
    refine .single (.load hl rfl (h.genuine_now hknown hgeneration 0) ?_)
    rintro _ _ ⟨⟩
    exact .inr hgeneration

/-- An action is a commit, an update of a stored head, or made of moves. -/
theorem act_cases (h : Inv s) (ha : s.act snapshots a = some s') :
    (∃ p head, a = .commit p head ∧ s.commit p head = some s') ∨
      (∃ l call snapshot readAt, a = .update l ∧ s.loads[l]? = some call ∧ call.phase = .read snapshot readAt ∧
        s' = s.update l call snapshot readAt) ∨ ReflTransGen Move s s' := by
  cases a with
  | commit p head => exact .inl ⟨p, head, rfl, ha⟩
  | update l =>
    simp only [act] at ha
    split at ha
    · rename_i p w cause snapshot readAt hl
      cases ha
      exact .inr (.inl ⟨l, _, snapshot, readAt, rfl, hl, rfl, rfl⟩)
    · cases ha
  | watch p =>
    cases ha
    exact .inr (.inr (.single (.coordinator (Coordinator.watchPartition_keeps h.apart))))
  | unwatch p =>
    cases ha
    exact .inr (.inr (.single (.coordinator (Coordinator.unwatchPartition_keeps h.apart))))
  | close =>
    cases ha
    exact .inr (.inr (.single (.coordinator (Coordinator.close_keeps h.apart))))
  | closeGroup =>
    simp only [act] at ha
    split at ha
    · cases ha
      unfold State.closeGroup
      split
      · exact .inr (.inr .refl)
      · exact .inr (.inr (.single (.closing ..)))
    · cases ha
  | cancelClosed l =>
    simp only [act] at ha
    split at ha
    · rename_i call hl
      split at ha
      · cases ha
        have hmove : Move s { s with closing := s.closing.erase l } := .closing s.closeErr _
        exact .inr (.inr (.tail (.single hmove) ((hmove.inv h).touchLoad hl rfl rfl)))
      · cases ha
    · cases ha
  | call p r =>
    cases ha
    exact .inr (.inr (.single (.call p r)))
  | lookup i =>
    simp only [act] at ha
    split at ha
    · rename_i hc
      cases ha
      exact .inr (.inr (lookup_moves h hc))
    · cases ha
  | checkOpen i =>
    simp only [act] at ha
    split at ha
    · rename_i hc
      cases ha
      refine .inr (.inr (.single (h.moveCaller hc ?_)))
      split
      · exact genuineResult_error
      · trivial
    · cases ha
  | giveUp i e =>
    simp only [act] at ha
    split at ha
    · rename_i hc
      cases ha
      exact .inr (.inr (.single (h.moveCaller hc genuineResult_error)))
    · cases ha
  | join i =>
    simp only [act] at ha
    split at ha
    · rename_i hc
      cases ha
      exact .inr (.inr (join_moves h hc))
    · cases ha
  | wake i =>
    simp only [act] at ha
    split at ha
    · rename_i p r t b l hc
      split at ha
      · rename_i q w cause result hl
        cases ha
        refine .inr (.inr (.single (h.moveCaller hc ?_)))
        obtain ⟨call, hcall, hpart⟩ := (h.caller hc).phase
        rw [hl] at hcall
        cases hcall
        have hok : GenuineResult (s.catalog q) s.clock result := h.load hl
        obtain rfl : q = p := hpart
        exact hok
      · cases ha
    · cases ha
  | abandon i e =>
    simp only [act] at ha
    split at ha
    · rename_i hc
      cases ha
      exact .inr (.inr (.single (h.moveCaller hc genuineResult_error)))
    · cases ha
  | release i =>
    simp only [act] at ha
    split at ha
    · rename_i hc
      split at ha
      · rename_i hl
        cases ha
        exact .inr (.inr (release_moves h hc hl (h.caller hc).phase))
      · cases ha
    · cases ha
  | cancelLoad i =>
    simp only [act] at ha
    split at ha
    · rename_i hc
      split at ha
      · rename_i l result _ call hl
        cases ha
        have hmove : Move s (s.setLoad l (call.cancel (.bare (.reader .noLoadWaiters)))) :=
          h.touchLoad hl rfl rfl
        exact .inr (.inr (.tail (.single hmove) ((hmove.inv h).moveCaller hc (h.caller hc).phase)))
      · cases ha
    · cases ha
  | begin l =>
    simp only [act] at ha
    split at ha
    · rename_i p w cause hl
      cases ha
      obtain ⟨hfound, hkeeps⟩ := Coordinator.partitionSnapshot_spec (p := p) h.apart
      refine .inr (.inr (.tail (.single (.coordinator hkeeps)) (.load hl rfl ?_ nofun)))
      exact fun found hf => h.stored p _ (hfound found hf)
    · cases ha
  | answer l a =>
    simp only [act] at ha
    split at ha
    · rename_i hl
      exact .inr (.inr (answer_moves h hl rfl ha))
    · cases ha
  | settle l =>
    simp only [act] at ha
    split at ha
    · rename_i p w cause result hl
      cases ha
      refine .inr (.inr (.single (.load hl rfl ?_ nofun)))
      have hok : GenuineResult (s.catalog p) s.clock result := h.load hl
      cases cause with
      | none => exact hok
      | some cause => exact genuineResult_error
    · cases ha
  | finish l =>
    simp only [act] at ha
    split at ha
    · rename_i p w cause result hl
      cases ha
      have hok : GenuineResult (s.catalog p) s.clock result := h.load hl
      exact .inr (.inr ((ReflTransGen.single (.load hl rfl hok nofun)).trans (forget_moves l _)))
    · cases ha

theorem update_inv (h : Inv s) {snapshot : Snapshot} {readAt : Nat}
    (hl : s.loads[l]? = some call) (hphase : call.phase = .read snapshot readAt) :
    Inv (s.update l call snapshot readAt) := by
  have hread : Genuine (s.catalog call.partition) s.clock ⟨snapshot, 0, readAt⟩ := by
    have := h.load hl
    unfold LoadOk at this
    rw [hphase] at this
    exact this
  have hkeeps := Coordinator.updateHead_keeps (p := call.partition) (s := snapshot) h.apart
  have hstored : Inv { s with coordinator := (s.coordinator.updateHead call.partition snapshot).2 } := by
    refine { h with apart := hkeeps.apart, stored := fun q t ht => ?_ }
    rcases hkeeps.stored q t ht with hold | hput
    · exact h.stored q t hold
    · cases hput
      exact hread.known
  refine Move.inv hstored (.load hl rfl ?_ nofun)
  rintro v ⟨⟩
  exact ⟨hread.known, hread.past, hread.newest⟩

/-- The moves of an action take no time and leave the catalog. -/
theorem Moves.still (hm : ReflTransGen Move s s') : s'.clock = s.clock ∧ s'.catalog = s.catalog := by
  induction hm with
  | refl => exact ⟨rfl, rfl⟩
  | tail _ hm ih =>
    rw [← ih.1, ← ih.2]
    cases hm <;> exact ⟨rfl, rfl⟩

/-- One step keeps the invariant. -/
theorem step_inv (h : Inv s) (hs : s.step snapshots a = some s') : Inv s' := by
  obtain ⟨s₁, ha, rfl⟩ := Option.map_eq_some_iff.1 hs
  rcases act_cases h ha with ⟨p, head, -, hc⟩ | ⟨l, call, snapshot, readAt, -, hl, hphase, rfl⟩ | hm
  · exact h.commit hc
  · exact (update_inv h hl hphase).tick
  · rw [← (Moves.still hm).1]
    exact (Moves.inv h hm).tick

theorem step_grows (h : Inv s) (hs : s.step snapshots a = some s') : Grows s s' := by
  obtain ⟨s₁, ha, rfl⟩ := Option.map_eq_some_iff.1 hs
  rcases act_cases h ha with ⟨p, head, -, hc⟩ | ⟨l, call, snapshot, readAt, -, -, -, rfl⟩ | hm
  · exact commit_grows hc
  · exact ⟨Nat.le_succ _, fun _ => .inl rfl⟩
  · exact ⟨Nat.le_succ _, fun p => .inl (congrFun (Moves.still hm).2 p)⟩

/-- The states that follow from a new reader, over a catalog without heads. -/
def Reaches (snapshots : Bool) (maxCachedPartitionHeads : Int) : State → Prop :=
  ReflTransGen (fun s s' => ∃ a, s.step snapshots a = some s') (State.start maxCachedPartitionHeads)

theorem start_inv (n : Int) : Inv (State.start n) where
  stamped := fun _ _ he => absurd he List.not_mem_nil
  ordered := fun _ => .nil
  apart := fun _ h => absurd rfl h
  stored := nofun
  registered := nofun
  loads := fun _ hc => absurd hc List.not_mem_nil
  callers := fun _ hc => absurd hc List.not_mem_nil

theorem Reaches.inv {n : Int} (h : Reaches snapshots n s) : Inv s := by
  induction h with
  | refl => exact start_inv n
  | tail _ hs ih => exact step_inv ih hs.choose_spec

theorem play_steps {ok : State → Action → State → Bool} {actions : List Action}
    (h : s.play snapshots ok actions = some s') :
    ReflTransGen (fun s s' => ∃ a, s.step snapshots a = some s' ∧ ok s a s' = true) s s' := by
  induction actions generalizing s with
  | nil =>
    cases h
    exact .refl
  | cons a actions ih =>
    obtain ⟨s₁, hs, hrest⟩ := Option.bind_eq_some_iff.1 h
    obtain ⟨hstep, hok⟩ := Option.filter_eq_some_iff.1 hs
    exact .head ⟨a, hstep, hok⟩ (ih hrest)

theorem Reaches.play {n : Int} {ok : State → Action → State → Bool} {actions : List Action}
    (h : (State.start n).play snapshots ok actions = some s) : Reaches snapshots n s :=
  Relation.ReflTransGen.mono (fun _ _ ⟨a, hstep, _⟩ => ⟨a, hstep⟩) _ _ (play_steps h)

/-! ## The head a call gets -/

theorem Follows.refl (head : PartitionHead) : Follows head head :=
  ⟨rfl, UInt64.le_refl _, UInt64.le_refl _, UInt64.le_refl _⟩

/-- An older head comes first, and the newer one keeps its tail, its oldest record and its epoch. -/
theorem Inv.follows (h : Inv s) {u : Snapshot} (ht : Known (s.catalog p) t) (hu : Known (s.catalog p) u)
    (hle : t.generation ≤ u.generation) : Follows t.head u.head := by
  obtain ⟨n, e, hn, he, hhead⟩ := ht
  obtain ⟨m, e', hm, he', hhead'⟩ := hu
  rcases Nat.lt_or_ge n m with hlt | hge
  · obtain ⟨hn', rfl⟩ := List.getElem?_eq_some_iff.1 he
    obtain ⟨hm', rfl⟩ := List.getElem?_eq_some_iff.1 he'
    rw [← hhead, ← hhead']
    exact List.pairwise_iff_getElem.1 (h.ordered p) n m hn' hm' hlt
  · obtain rfl : n = m := by omega
    rw [he] at he'
    cases he'
    rw [← hhead, ← hhead']
    exact .refl _

end State

/-- `errors.Is(err, ErrCheckpointAhead)` of a result. -/
def ahead {α : Type} : Except Err α → Bool
  | .ok _ => false
  | .error e => e.is (.reader .checkpointAhead)

section Checkpoints
variable {head : PartitionHead}

theorem ahead_failIf {c : Prop} [Decidable c] {e : Err} {α : Type} {f : Unit → Except Err α}
    (he : e.is (.reader .checkpointAhead) = false) (hf : ¬c → ahead (f ()) = false) : ahead (failIf c e >>= f) = false := by
  by_cases hc : c
  · simp only [failIf, if_pos hc]
    exact he
  · simp only [failIf, if_neg hc]
    exact hf hc

theorem resumeCursor_not_ahead {partition : UInt32} {checkpoint : CursorCheckpoint} {limit : Int64}
    (h : checkpoint.nextLSN ≤ head.nextLSN) :
    ahead (resumeCursor partition (.ok ()) checkpoint limit (.ok head)) = false := by
  unfold resumeCursor
  refine ahead_failIf rfl fun _ => ahead_failIf rfl fun _ => ahead_failIf rfl fun _ => ?_
  refine ahead_failIf rfl fun _ => ahead_failIf rfl fun _ => ahead_failIf rfl fun _ => ?_
  rw [failIf, if_neg (UInt64.not_lt.2 h)]
  rfl

theorem checkpoint_not_ahead {c : Cursor} (h : c.nextLSN ≤ head.nextLSN) : ahead (c.checkpoint (.ok head)).2 = false := by
  unfold Cursor.checkpoint
  split
  · rfl
  · have hbind : ahead (c.bind head) = false := ahead_failIf rfl fun _ => ahead_failIf rfl fun _ => rfl
    dsimp only
    split
    · rename_i e hb
      rw [hb] at hbind
      exact hbind
    · rename_i c' hb
      have hnext : c'.nextLSN = c.nextLSN := by
        simp only [Cursor.bind, checks_ok] at hb
        rw [← hb.2.2]
      split
      · rfl
      · rw [if_neg (UInt64.not_lt.2 (hnext ▸ h))]
        rfl

end Checkpoints

/-- A call for the latest head is never answered from the cache. The head it gets is at least as new as the newest one
when it began exactly where the load that answered it read the catalog later, or no head was committed in between; and
then it sees every record committed before it began and takes no checkpoint of those as ahead. -/
theorem latest_head_iff_read_after_call {snapshots : Bool} {n : Int} {s : State} {c : Caller} {v : HeadSnapshot}
    (h : State.Reaches snapshots n s) (hc : c ∈ s.callers) (hlatest : c.request.latest = true) :
    (∀ t, c.phase ≠ .served t) ∧ (c.result = some v → (c.beganGeneration ≤ v.snapshot.generation ↔
          c.beganAt ≤ v.readAt ∨ ∀ e ∈ s.catalog c.partition, ¬(v.readAt ≤ e.1 ∧ e.1 < c.beganAt)) ∧
        (c.beganGeneration ≤ v.snapshot.generation → ∀ t, c.began = some t → t.head.nextLSN ≤ v.snapshot.head.nextLSN ∧
          (∀ (checkpoint : CursorCheckpoint) (limit : Int64), checkpoint.nextLSN ≤ t.head.nextLSN →
            ahead (resumeCursor c.partition (.ok ()) checkpoint limit (.ok v.snapshot.head)) = false) ∧
          ∀ cursor : Cursor, cursor.nextLSN ≤ t.head.nextLSN →
            ahead (cursor.checkpoint (.ok v.snapshot.head)).2 = false)) := by
  have hinv := h.inv
  obtain ⟨hpast, hgeneration, hknown, hphase⟩ := hinv.callers c hc
  constructor
  · intro t ht
    rw [ht] at hphase
    have : c.request.latest = false := hphase
    simp [hlatest] at this
  · intro hresult
    have hv : State.Genuine (s.catalog c.partition) s.clock v := by
      unfold Caller.result at hresult
      split at hresult
      · rename_i v' hreturned
        cases hresult
        rw [hreturned] at hphase
        exact hphase v rfl
      · cases hresult
    refine ⟨?_, fun hle t ht => ?_⟩
    · rw [hgeneration, hv.newest]
      exact State.before_le_iff ..
    · have hfollows : State.Follows t.head v.snapshot.head := by
        refine hinv.follows (hknown t ht) hv.known ?_
        simpa [Caller.beganGeneration, ht] using hle
      have hnext := hfollows.2.1
      exact ⟨hnext, fun _ _ hle => resumeCursor_not_ahead (UInt64.le_trans hle hnext),
        fun _ hle => checkpoint_not_ahead (UInt64.le_trans hle hnext)⟩

namespace Sample

/-- Head of partition 0 with records up to `nextLSN`. -/
def head (nextLSN : UInt64) : PartitionHead := { PartitionHead.zero with nextLSN := nextLSN, writerEpoch := 1 }

/-- Caller `i` asks for the latest head and joins or starts a load. -/
def asks (i : Nat) : List Action := [.call 0 .refresh, .lookup i, .checkOpen i, .join i]

/-- Load `l` begins and reads the newest head. -/
def reads (l : Nat) : List Action := [.begin l, .answer l .snapshot]

/-- Load `l` stores what it read and ends. -/
def ends (l : Nat) : List Action := [.update l, .settle l, .finish l]

def gets (i : Nat) : List Action := [.wake i, .release i]

/-- The second call begins after a commit that the load it joins has not seen. -/
def joined : List Action :=
  [.commit 0 (head 1)] ++ asks 0 ++ reads 0 ++ [.commit 0 (head 2)] ++ asks 1 ++ ends 0 ++ gets 1

/-- A call that starts its own load. -/
def alone : List Action := [.commit 0 (head 1)] ++ asks 0 ++ reads 0 ++ ends 0 ++ gets 0

end Sample

/-- A call that joins a load under way gets a head older than the newest when it began, and with it a checkpoint that
was committed before the call counts as ahead. -/
theorem joined_call_gets_older_head :
    ∃ s c v t, State.Reaches true 1 s ∧ c ∈ s.callers ∧ c.request = .refresh ∧ c.result = some v ∧ c.began = some t ∧
      v.snapshot.generation < t.generation ∧
      ahead (resumeCursor c.partition (.ok ()) ⟨cursorCheckpointVersion, "", 0, t.head.nextLSN⟩ 0
        (.ok v.snapshot.head)) = true := by
  have hrun : ((State.start 1).play true (fun _ _ _ => true) Sample.joined).any (fun s => s.callers[1]?.any fun c =>
      c.request = .refresh && c.result.any fun v => c.began.any fun t =>
        v.snapshot.generation < t.generation &&
          ahead (resumeCursor c.partition (.ok ()) ⟨cursorCheckpointVersion, "", 0, t.head.nextLSN⟩ 0
            (.ok v.snapshot.head))) = true := by decide +kernel
  simp only [Option.any_eq_true, Bool.and_eq_true, decide_eq_true_eq] at hrun
  obtain ⟨s, hs, c, hc, hrequest, v, hv, t, ht, hlt, hahead⟩ := hrun
  exact ⟨s, c, v, t, State.Reaches.play hs, List.mem_of_getElem? hc, hrequest, hv, ht, hlt, hahead⟩

theorem latest_head_iff_read_after_call_alone :
    ∃ s c v, State.Reaches true 1 s ∧ c ∈ s.callers ∧ c.request.latest = true ∧ c.result = some v ∧
      c.beganAt ≤ v.readAt ∧ c.beganGeneration ≤ v.snapshot.generation := by
  have hrun : ((State.start 1).play true (fun _ _ _ => true) Sample.alone).any (fun s => s.callers[0]?.any fun c =>
      c.request.latest && c.result.any fun v => c.beganAt ≤ v.readAt) = true := by decide +kernel
  simp only [Option.any_eq_true, Bool.and_eq_true, decide_eq_true_eq] at hrun
  obtain ⟨s, hs, c, hc, hlatest, v, hv, hle⟩ := hrun
  have hreach : State.Reaches true 1 s := State.Reaches.play hs
  exact ⟨s, c, v, hreach, List.mem_of_getElem? hc, hlatest, hv, hle,
    (((latest_head_iff_read_after_call hreach (List.mem_of_getElem? hc) hlatest).2 hv).1.2 (.inl hle))⟩

/-! ## The heads that are stored -/

namespace State

variable {s s' : State} {p : UInt32} {snapshots : Bool}

/-- An action that stores no head for a load that all its waiters have left. -/
def steady (s : State) : Action → Bool
  | .update l => s.loads[l]?.all fun call => s.calls call.partition == some l
  | _ => true

def SteadyStep (snapshots : Bool) (s s' : State) : Prop := ∃ a, s.step snapshots a = some s' ∧ s.steady a = true

/-- Such a step, with a head stored for the partition before and after it. -/
def RetainedStep (snapshots : Bool) (p : UInt32) (s s' : State) : Prop :=
  SteadyStep snapshots s s' ∧ (s.coordinator.stored p).isSome ∧ (s'.coordinator.stored p).isSome

/-- What the registered load has read is no older than what is stored. -/
def Fresh (s : State) : Prop :=
  ∀ p l call snapshot readAt t, s.calls p = some l → s.loads[l]? = some call → call.phase = .read snapshot readAt →
    s.coordinator.stored p = some t → t.generation ≤ snapshot.generation

theorem Known.le (h : Known heads t) : t.generation ≤ heads.length := by
  obtain ⟨n, e, hn, he, -⟩ := h
  have := (List.getElem?_eq_some_iff.1 he).1
  omega

theorem Move.stored (hm : Move s s') (ht : s'.coordinator.stored p = some t) : s.coordinator.stored p = some t := by
  cases hm with
  | coordinator hk => exact (hk.stored p t ht).resolve_right nofun
  | closing | load | newCall | forgotten | caller | call => exact ht

theorem Move.fresh (h : Inv s) (hf : Fresh s) (hm : Move s s') : Fresh s' := by
  intro q k c snapshot readAt t hcalls hload hread hstored
  have hbefore := hm.stored hstored
  cases hm with
  | coordinator | closing | caller | call => exact hf q k c snapshot readAt t hcalls hload hread hbefore
  | forgotten p =>
    refine hf q k c snapshot readAt t ?_ hload hread hbefore
    by_cases hq : q = p
    · subst hq
      simp at hcalls
    · simpa [Function.update_of_ne hq] using hcalls
  | @load l call call' hl hp hok hphase =>
    have hlt := (List.getElem?_eq_some_iff.1 hl).1
    by_cases hk : l = k
    · subst hk
      rw [show (s.setLoad l call').loads[l]? = some call' from List.getElem?_set_self hlt] at hload
      cases hload
      rcases hphase snapshot readAt hread with hold | hnow
      · exact hf q l call snapshot readAt t hcalls hl hold hbefore
      · -- read just now: nothing stored is newer than the catalog
        obtain ⟨call₁, hcall₁, rfl⟩ := h.registered q l hcalls
        rw [hl] at hcall₁
        cases hcall₁
        rw [hnow]
        exact (h.stored _ t hbefore).le
    · rw [show (s.setLoad l call').loads[k]? = s.loads[k]? from List.getElem?_set_ne hk] at hload
      exact hf q k c snapshot readAt t hcalls hload hread hbefore
  | newCall p =>
    by_cases hq : q = p
    · subst hq
      obtain rfl : s.loads.length = k := by simpa [State.newCall] using hcalls
      obtain rfl : (⟨q, 1, none, .starting⟩ : LoadCall) = c := by simpa [State.newCall] using hload
      cases hread
    · have hcalls : s.calls q = some k := by simpa [State.newCall, Function.update_of_ne hq] using hcalls
      obtain ⟨c', hc', -⟩ := h.registered q k hcalls
      rw [show (s.newCall p).loads[k]? = s.loads[k]? from
        List.getElem?_append_left (List.getElem?_eq_some_iff.1 hc').1] at hload
      exact hf q k c snapshot readAt t hcalls hload hread hbefore

theorem update_fresh (h : Inv s) (hf : Fresh s) {snapshot : Snapshot} {readAt : Nat}
    (hl : s.loads[l]? = some call) (hcall : s.calls call.partition = some l) :
    Fresh (s.update l call snapshot readAt) := by
  intro q k c snapshot' readAt' t hcalls hload hread hstored
  have hlt := (List.getElem?_eq_some_iff.1 hl).1
  by_cases hk : l = k
  · subst hk
    rw [show (s.update l call snapshot readAt).loads[l]? = some _ from List.getElem?_set_self hlt] at hload
    cases hload
    cases hread
  · rw [show (s.update l call snapshot readAt).loads[k]? = s.loads[k]? from List.getElem?_set_ne hk] at hload
    have hput := (Coordinator.updateHead_keeps (p := call.partition) (s := snapshot) h.apart).stored q t hstored
    rcases hput with hold | hput
    · exact hf q k c snapshot' readAt' t hcalls hload hread hold
    · -- only this load is registered for its partition
      cases hput
      have hsame : s.calls call.partition = some k := hcalls
      rw [hcall] at hsame
      cases hsame
      exact absurd rfl hk

/-- One such step keeps what the registered loads have read fresh, and stores nothing older. -/
theorem SteadyStep.spec (h : Inv s) (hf : Fresh s) (hs : SteadyStep snapshots s s') :
    Fresh s' ∧ ∀ t u, s.coordinator.stored p = some t → s'.coordinator.stored p = some u →
      t.generation ≤ u.generation := by
  obtain ⟨a, hstep, hsteady⟩ := hs
  obtain ⟨s₁, ha, rfl⟩ := Option.map_eq_some_iff.1 hstep
  have hsame : ∀ {t u}, s.coordinator.stored p = some t → s.coordinator.stored p = some u →
      t.generation ≤ u.generation := by
    intro t u ht hu
    rw [ht] at hu
    cases hu
    exact Nat.le_refl _
  rcases act_cases h ha with ⟨q, head, -, hc⟩ | ⟨l, call, snapshot, readAt, rfl, hl, hphase, rfl⟩ | hm
  · unfold State.commit at hc
    split at hc
    · cases hc
      exact ⟨hf, fun t u ht hu => hsame ht hu⟩
    · cases hc
  · have hcall : s.calls call.partition = some l := by simpa [steady, hl] using hsteady
    refine ⟨update_fresh h hf hl hcall, fun t u ht hu => ?_⟩
    have hput := (Coordinator.updateHead_keeps (p := call.partition) (s := snapshot) h.apart).stored p u hu
    rcases hput with hold | hput
    · exact hsame ht hold
    · cases hput
      exact hf _ l call snapshot readAt t hcall hl hphase ht
  · have hmoves : Inv s₁ ∧ Fresh s₁ ∧ ∀ t, s₁.coordinator.stored p = some t → s.coordinator.stored p = some t := by
      clear ha hstep
      induction hm with
      | refl => exact ⟨h, hf, fun _ ht => ht⟩
      | tail _ hm ih =>
        obtain ⟨hi, hfresh, hstored⟩ := ih
        exact ⟨hm.inv hi, hm.fresh hi hfresh, fun t ht => hstored t (hm.stored ht)⟩
    exact ⟨hmoves.2.1, fun t u ht hu => hsame ht (hmoves.2.2 u hu)⟩

theorem SteadyStep.inv (h : Inv s) (hs : SteadyStep snapshots s s') : Inv s' := step_inv h hs.choose_spec.1

theorem start_fresh (n : Int) : Fresh (State.start n) :=
  fun _ _ _ _ _ _ h => absurd h.symm (Option.some_ne_none _)

theorem SteadySteps.ok (h : Inv s) (hf : Fresh s) (hs : Relation.ReflTransGen (SteadyStep snapshots) s s') :
    Inv s' ∧ Fresh s' := by
  induction hs with
  | refl => exact ⟨h, hf⟩
  | tail _ hs ih => exact ⟨hs.inv ih.1, (hs.spec (p := 0) ih.1 ih.2).1⟩

end State

/-- Where no load stores a head after all its waiters left, the heads stored for a partition only advance while one
stays stored, and with them its tail, its oldest record and its epoch. -/
theorem stored_heads_advance {snapshots : Bool} {n : Int} {p : UInt32} {s s' : State} {t u : Snapshot}
    (h : Relation.ReflTransGen (State.SteadyStep snapshots) (State.start n) s)
    (hrun : Relation.ReflTransGen (State.RetainedStep snapshots p) s s')
    (ht : s.coordinator.stored p = some t) (hu : s'.coordinator.stored p = some u) :
    t.generation ≤ u.generation ∧ t.head.nextLSN ≤ u.head.nextLSN ∧ t.head.oldestLSN ≤ u.head.oldestLSN ∧
      t.head.writerEpoch ≤ u.head.writerEpoch := by
  obtain ⟨hinv, hfresh⟩ := State.SteadySteps.ok (State.start_inv n) (State.start_fresh n) h
  -- over the retained steps; the head stays known, as the catalog forgets none
  suffices hsteps : (State.Inv s' ∧ State.Fresh s') ∧ State.Known (s'.catalog p) t ∧ t.generation ≤ u.generation by
    obtain ⟨⟨hinv', -⟩, hknown, hle⟩ := hsteps
    exact ⟨hle, (hinv'.follows hknown (hinv'.stored p u hu) hle).2⟩
  induction hrun generalizing u with
  | refl =>
    rw [ht] at hu
    cases hu
    exact ⟨⟨hinv, hfresh⟩, hinv.stored p t ht, Nat.le_refl _⟩
  | @tail s₁ s₂ _ hstep ih =>
    obtain ⟨hsteady, hsome, -⟩ := hstep
    obtain ⟨t₁, ht₁⟩ := Option.isSome_iff_exists.1 hsome
    obtain ⟨⟨hinv₁, hfresh₁⟩, hknown, hle⟩ := ih ht₁
    obtain ⟨hfresh₂, hadvance⟩ := hsteady.spec (p := p) hinv₁ hfresh₁
    refine ⟨⟨hsteady.inv hinv₁, hfresh₂⟩, ?_, hle.trans (hadvance t₁ u ht₁ hu)⟩
    exact hknown.grows (State.step_grows hinv₁ hsteady.choose_spec.1)

namespace Sample

/-- A load stores a head, then its successor a newer one. -/
def stores : List Action := [.commit 0 (head 1)] ++ asks 0 ++ reads 0 ++ [.update 0]

def advances : List Action := [.settle 0, .finish 0, .commit 0 (head 2)] ++ asks 1 ++ reads 1 ++ [.update 1]

end Sample

theorem stored_heads_advance_from_one_to_two :
    ∃ s s' t u, Relation.ReflTransGen (State.SteadyStep true) (State.start 1) s ∧
      Relation.ReflTransGen (State.RetainedStep true 0) s s' ∧ s.coordinator.stored 0 = some t ∧
      s'.coordinator.stored 0 = some u ∧ t.head.nextLSN = 1 ∧ u.head.nextLSN = 2 ∧ t.generation ≤ u.generation := by
  have hrun : ((State.start 1).play true (fun s a _ => s.steady a) Sample.stores).any (fun s =>
      (s.play true (fun s a s' => s.steady a && ((s.coordinator.stored 0).isSome && (s'.coordinator.stored 0).isSome))
        Sample.advances).any fun s' =>
      (s.coordinator.stored 0).any fun t => (s'.coordinator.stored 0).any fun u =>
        t.head.nextLSN = 1 && u.head.nextLSN = 2) = true := by decide +kernel
  simp only [Option.any_eq_true, Bool.and_eq_true, decide_eq_true_eq] at hrun
  obtain ⟨s, hs, s', hs', t, ht, u, hu, hone, htwo⟩ := hrun
  have hfrom := State.play_steps hs
  have hto : Relation.ReflTransGen (State.RetainedStep true 0) s s' := by
    refine Relation.ReflTransGen.mono ?_ _ _ (State.play_steps hs')
    rintro s₁ s₂ ⟨a, hstep, hok⟩
    simp only [Bool.and_eq_true] at hok
    exact ⟨⟨a, hstep, hok.1⟩, hok.2⟩
  exact ⟨s, s', t, u, hfrom, hto, ht, hu, hone, htwo, (stored_heads_advance hfrom hto ht hu).1⟩

namespace Sample

/-- The load of a call that gives up after the read is replaced by one that sees a newer head, and stores its own last. -/
def abandoned : List Action :=
  [.commit 0 (head 1)] ++ asks 0 ++ reads 0 ++ [.abandon 0 (.bare .canceled), .release 0, .cancelLoad 0] ++
    [.commit 0 (head 2)] ++ asks 1 ++ reads 1 ++ [.update 1]

end Sample

/-- A load that its only waiter left stores an older head over a newer one. -/
theorem abandoned_load_turns_head_back :
    ∃ s s' t u, State.Reaches true 1 s ∧ s.step true (.update 0) = some s' ∧ s.coordinator.stored 0 = some t ∧
      s'.coordinator.stored 0 = some u ∧ u.generation < t.generation ∧ u.head.nextLSN < t.head.nextLSN := by
  have hrun : ((State.start 1).play true (fun _ _ _ => true) Sample.abandoned).any (fun s => (s.step true (.update 0)).any fun s' =>
      (s.coordinator.stored 0).any fun t => (s'.coordinator.stored 0).any fun u =>
        u.generation < t.generation && u.head.nextLSN < t.head.nextLSN) = true := by decide +kernel
  simp only [Option.any_eq_true, Bool.and_eq_true, decide_eq_true_eq] at hrun
  obtain ⟨s, hs, s', hs', t, ht, u, hu, hlt, hnext⟩ := hrun
  exact ⟨s, s', t, u, State.Reaches.play hs, hs', ht, hu, hlt, hnext⟩

end ObjLog.Reader
