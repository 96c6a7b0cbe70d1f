import ObjLog.Lib.Tally
import ObjLog.Reader.LoadGroup
/-!
# What holds of coalesced loads in every interleaving

`Inv` ties each load's `waiters` and the group's `active` to the callers and goroutines they
count. A load that was cancelled, or is about to be, while the group is open is `Idle`: it
counts nobody and no key leads to it, so nobody joins it again.
-/

namespace ObjLog.Reader.LoadGroup

open Lib
open LoadCall (exited recorded)

variable {V : Type}

/-- The caller is one of the load's `waiters`. -/
def Caller.Holds (c : Caller V) (l : Nat) : Prop := c.phase = .waiting l ∨ ∃ abandons, c.phase = .leaving l abandons

namespace State

/-- Nobody waits for load `l` and nobody can join it. -/
def Idle (s : State V) (l : Nat) : Prop := (s.loads l).waiters = 0 ∧ ∀ key, s.calls key ≠ some l

/-- What a caller knows of the load it joined. -/
def Sound (s : State V) (c : Caller V) : Prop :=
  match c.phase with
  | .absent | .called | .entering | .returned none _ => True
  | .waiting l => l < s.started
  | .leaving l abandons => l < s.started ∧ if abandons then c.ctxErr ≠ none else (s.loads l).recorded ≠ none
  | .cancelling l _ => l < s.started ∧ c.ctxErr ≠ none ∧ s.Idle l
  | .returned (some l) o => l < s.started ∧ (c.ctxErr = none → (s.loads l).recorded = some o)

def Closed (s : State V) : Closer → Prop
  | .absent | .called _ => True
  | .cancelling _ _ => s.closeErr ≠ none
  | .returned => s.closeErr ≠ none ∧ ∀ l < s.started, (s.loads l).exited

structure Inv (s : State V) : Prop where
  waiters : ∀ l, Tally (s.loads l).waiters fun i => (s.callers i).Holds l
  callers : ∀ i, s.Sound (s.callers i)
  registered : ∀ key l, s.calls key = some l → l < s.started ∧ (s.loads l).key = key ∧ (s.loads l).recorded = none
  cancelled : ∀ l, s.closeErr = none → (s.loads l).recorded = none → (s.loads l).cause ≠ none → s.Idle l
  active : Tally s.active fun l => l < s.started ∧ (s.loads l).exited = false
  closers : ∀ j, s.Closed (s.closers j)

/-- What no step takes back. -/
structure Later (s s' : State V) : Prop where
  started : s.started ≤ s'.started
  closed : s.closeErr ≠ none → s'.closeErr ≠ none ∧ s'.started = s.started
  recorded : ∀ l < s.started, ∀ o, (s.loads l).recorded = some o → (s'.loads l).recorded = some o
  exited : ∀ l < s.started, (s.loads l).exited → (s'.loads l).exited
  idle : ∀ l < s.started, s.Idle l → s'.Idle l

variable {s s' : State V} {c : Caller V} {call : LoadCall V} {i j l : Nat}

theorem Sound.later (h : s.Sound c) (later : Later s s') : s'.Sound c := by
  obtain ⟨key, ctxErr, phase⟩ := c
  cases phase with
  | absent | called | entering => trivial
  | waiting l => exact lt_of_lt_of_le h later.started
  | leaving l abandons =>
    refine ⟨lt_of_lt_of_le h.1 later.started, ?_⟩
    cases abandons with
    | true => exact h.2
    | false =>
      obtain ⟨o, ho⟩ := Option.ne_none_iff_exists'.1 h.2
      simp [later.recorded l h.1 o ho]
  | cancelling l o => exact ⟨lt_of_lt_of_le h.1 later.started, h.2.1, later.idle l h.1 h.2.2⟩
  | returned joined o =>
    cases joined with
    | none => trivial
    | some l => exact ⟨lt_of_lt_of_le h.1 later.started, fun hctx => later.recorded l h.1 o (h.2 hctx)⟩

theorem Sound.ctxEnds {err : Err} (h : s.Sound c) : s.Sound { c with ctxErr := some err } := by
  obtain ⟨key, ctxErr, phase⟩ := c
  cases phase with
  | absent | called | entering => trivial
  | waiting l => exact h
  | leaving l abandons => cases abandons <;> simp_all [Sound]
  | cancelling l o => exact ⟨h.1, by simp, h.2.2⟩
  | returned joined o => cases joined <;> simp_all [Sound]

theorem Closed.later {closer : Closer} (h : s.Closed closer) (later : Later s s') : s'.Closed closer := by
  cases closer with
  | absent | called cause => trivial
  | cancelling cause loads => exact (later.closed h).1
  | returned =>
    obtain ⟨hclosed, hstarted⟩ := later.closed h.1
    refine ⟨hclosed, fun l hl => ?_⟩
    rw [hstarted] at hl
    exact later.exited l hl (h.2 l hl)

theorem Inv.initial : (initial : State V).Inv :=
  ⟨fun _ => .none (by simp [State.initial, Caller.Holds]), fun _ => trivial, by simp [State.initial], by simp [State.initial],
    .none (by simp [State.initial]), fun _ => trivial⟩

theorem Inv.held (h : s.Inv) (hl : (s.callers i).Holds l) : l < s.started ∧ 0 < (s.loads l).waiters := by
  refine ⟨?_, (h.waiters l).pos hl⟩
  have hsound := h.callers i
  rcases hl with hl | ⟨abandons, hl⟩ <;> simp only [Sound, hl] at hsound
  · exact hsound
  · exact hsound.1

/-! ## Single changes -/

/-- A step that starts no load, takes back nothing and moves at most the given callers and calls of `Close`. -/
theorem Inv.after (h : s.Inv) (later : Later s s') (hstarted : s'.started = s.started)
    (hwaiters : ∀ l, Tally (s'.loads l).waiters fun i => (s'.callers i).Holds l)
    (hcallers : ∀ i, s'.callers i = s.callers i ∨ s'.Sound (s'.callers i))
    (hcalls : ∀ key l, s'.calls key = some l → s.calls key = some l ∧
      (s'.loads l).key = (s.loads l).key ∧ ((s.loads l).recorded = none → (s'.loads l).recorded = none))
    (hcancelled : ∀ l, s'.closeErr = none → (s'.loads l).recorded = none → (s'.loads l).cause ≠ none → s'.Idle l)
    (hactive : Tally s'.active fun l => l < s.started ∧ (s'.loads l).exited = false)
    (hclosers : ∀ j, s'.closers j = s.closers j ∨ s'.Closed (s'.closers j)) : s'.Inv where
  waiters := hwaiters
  callers i := (hcallers i).elim (fun heq => heq ▸ (h.callers i).later later) id
  registered key l hl := by
    obtain ⟨hl, hkey, hrec⟩ := hcalls key l hl
    obtain ⟨hlt, rfl, hnone⟩ := h.registered key l hl
    exact ⟨hstarted ▸ hlt, hkey, hrec hnone⟩
  cancelled := hcancelled
  active := hstarted ▸ hactive
  closers j := (hclosers j).elim (fun heq => heq ▸ (h.closers j).later later) id

theorem setLoad_loads (s : State V) (l l' : Nat) (call : LoadCall V) :
    (s.setLoad l call).loads l' = if l' = l then call else s.loads l' := Function.update_apply ..

/-- A load moves and counts the same callers; the group counts it as `active` says. -/
theorem Inv.countLoad {active : Int} (h : s.Inv) (hkey : call.key = (s.loads l).key) (hw : call.waiters = (s.loads l).waiters)
    (hr : ∀ o, (s.loads l).recorded = some o → call.recorded = some o)
    (hreg : call.recorded = (s.loads l).recorded ∨ ∀ key, s.calls key ≠ some l) (he : (s.loads l).exited → call.exited)
    (hcause : s.closeErr = none → call.recorded = none → call.cause ≠ none → s.Idle l)
    (hactive : Tally active fun l' => l' < s.started ∧ (if l' = l then call else s.loads l').exited = false) :
    ({ s with active := active }.setLoad l call).Inv := by
  have hloads (l') : ({ s with active := active }.setLoad l call).loads l' = if l' = l then call else s.loads l' :=
    setLoad_loads ..
  have hwaiters (l') : (({ s with active := active }.setLoad l call).loads l').waiters = (s.loads l').waiters := by grind
  have hidle {l'} (hl : s.Idle l') : ({ s with active := active }.setLoad l call).Idle l' := ⟨(hwaiters l').trans hl.1, hl.2⟩
  refine h.after ⟨le_rfl, fun h => ⟨h, rfl⟩, by grind, by grind, fun _ _ => hidle⟩ rfl (fun l' => hwaiters l' ▸ h.waiters l')
    (fun _ => .inl rfl) (fun key l' hl => ⟨hl, ?_⟩) (fun l' hopen hrec hne => hidle ?_)
    (hactive.congr fun l' => by rw [hloads]) fun _ => .inl rfl
  · have hl : s.calls key = some l' := hl
    grind
  · have hold := h.cancelled l' hopen
    have hnew := hcause hopen
    grind

theorem Inv.setLoad (h : s.Inv) (hkey : call.key = (s.loads l).key) (hw : call.waiters = (s.loads l).waiters)
    (hr : ∀ o, (s.loads l).recorded = some o → call.recorded = some o)
    (hreg : call.recorded = (s.loads l).recorded ∨ ∀ key, s.calls key ≠ some l) (he : call.exited = (s.loads l).exited)
    (hcause : s.closeErr = none → call.recorded = none → call.cause ≠ none → s.Idle l) : (s.setLoad l call).Inv :=
  h.countLoad hkey hw hr hreg (by simp [he]) hcause (h.active.congr fun l' => by grind)

/-- The load's goroutine moves and the outcome stays unrecorded. -/
theorem Inv.moveLoad {phase : LoadPhase V} (h : s.Inv) (hold : (s.loads l).recorded = none) (he : (s.loads l).exited = false)
    (hnew : recorded { s.loads l with phase := phase } = none)
    (he' : exited { s.loads l with phase := phase } = false) : (s.moveLoad l phase).Inv :=
  h.setLoad rfl rfl (by simp [hold]) (.inl (hnew.trans hold.symm)) (he'.trans he.symm)
    fun hopen _ hne => h.cancelled l hopen hold hne

theorem Inv.cancel (h : s.Inv) (cause : Err) (hidle : s.closeErr = none → s.Idle l) :
    (s.setLoad l ((s.loads l).cancel cause)).Inv :=
  h.setLoad rfl rfl (fun _ h => h) (.inl rfl) rfl fun hopen _ _ => hidle hopen

/-- A caller moves, and load `l` counts it or not. -/
theorem Inv.recount {w : Int} (h : s.Inv) (hi : ∀ l' ≠ l, c.Holds l' ↔ (s.callers i).Holds l')
    (hw : (c.Holds l ∧ ¬(s.callers i).Holds l ∧ w = (s.loads l).waiters + 1) ∨
      (¬c.Holds l ∧ (s.callers i).Holds l ∧ w = (s.loads l).waiters - 1) ∨
      ((c.Holds l ↔ (s.callers i).Holds l) ∧ w = (s.loads l).waiters))
    (hidle : s.Idle l → w = 0) (hc : (s.count l w).Sound c) : ((s.count l w).setCaller i c).Inv := by
  have hcallers (j) : ((s.count l w).setCaller i c).callers j = if j = i then c else s.callers j := Function.update_apply ..
  have hloads (l') : ((s.count l w).setCaller i c).loads l' =
      ⟨(s.loads l').key, if l' = l then w else (s.loads l').waiters, (s.loads l').cause, (s.loads l').phase⟩ := by
    refine (setLoad_loads ..).trans ?_
    split <;> simp [*]
  have hrec (l') : (((s.count l w).setCaller i c).loads l').recorded = (s.loads l').recorded := by rw [hloads]; rfl
  have hexited (l') : (((s.count l w).setCaller i c).loads l').exited = (s.loads l').exited := by rw [hloads]; rfl
  have hidles {l'} (hl : s.Idle l') : ((s.count l w).setCaller i c).Idle l' := ⟨by grind [Idle], hl.2⟩
  refine h.after ⟨le_rfl, fun h => ⟨h, rfl⟩, by simp [hrec], by simp [hexited], fun _ _ => hidles⟩ rfl (fun l' => ?_)
    (fun j => ?_) (fun key l' hl => ⟨hl, by simp [hloads], by simp [hrec]⟩) (fun l' hopen hnone hne => hidles ?_)
    (h.active.congr fun l' => by rw [hexited]) fun _ => .inl rfl
  · simp only [hcallers, hloads]
    by_cases heq : l' = l
    · subst heq
      rw [if_pos rfl]
      rcases hw with ⟨hnew, hold, rfl⟩ | ⟨hnew, hold, rfl⟩ | ⟨hsame, rfl⟩
      · exact (h.waiters l').add hold fun j => by grind
      · exact (h.waiters l').remove hold fun j => by grind
      · exact (h.waiters l').congr fun j => by grind
    · rw [if_neg heq]
      exact (h.waiters l').congr fun j => by grind
  · rw [hcallers]
    split
    · exact .inr hc
    · exact .inl rfl
  · rw [hrec] at hnone
    rw [hloads] at hne
    exact h.cancelled l' hopen hnone hne

/-- A caller moves and the same load counts it. -/
theorem Inv.setCaller (h : s.Inv) (hi : ∀ l, c.Holds l ↔ (s.callers i).Holds l) (hc : s.Sound c) : (s.setCaller i c).Inv := by
  have hsame : s.count 0 (s.loads 0).waiters = s := by simp [count, State.setLoad]
  have := h.recount (l := 0) (fun l _ => hi l) (.inr (.inr ⟨hi 0, rfl⟩)) (fun hidle => hidle.1) (by rwa [hsame])
  rwa [hsame] at this

theorem Inv.setCloser {closer : Closer} (h : s.Inv) (hj : s.Closed closer) : (s.setCloser j closer).Inv := by
  refine h.after ⟨le_rfl, fun h => ⟨h, rfl⟩, fun _ _ _ h => h, fun _ _ h => h, fun _ _ h => h⟩ rfl h.waiters
    (fun _ => .inl rfl) (fun _ _ hl => ⟨hl, rfl, id⟩) h.cancelled h.active fun j' => ?_
  have hclosers : (s.setCloser j closer).closers j' = if j' = j then closer else s.closers j' := Function.update_apply ..
  rw [hclosers]
  split
  · exact .inr hj
  · exact .inl rfl

theorem forget_calls (s : State V) (l : Nat) (key : String) :
    (s.forget l).calls key = if key = (s.loads l).key ∧ s.calls key = some l then none else s.calls key := by
  unfold forget
  split
  · refine (Function.update_apply ..).trans ?_
    grind
  · grind

theorem forget_eq (s : State V) (l : Nat) : s.forget l = { s with calls := (s.forget l).calls } := by
  unfold forget
  split <;> rfl

theorem Inv.forget (h : s.Inv) (l : Nat) : (s.forget l).Inv ∧ ∀ key, (s.forget l).calls key ≠ some l := by
  have hcalls {key : String} {l'} : (s.forget l).calls key = some l' → s.calls key = some l' := by grind [forget_calls]
  refine ⟨?_, fun key => by have := h.registered key l; grind [forget_calls]⟩
  rw [forget_eq]
  have hidle {l'} (hl : s.Idle l') : Idle { s with calls := (s.forget l).calls } l' :=
    ⟨hl.1, fun key heq => hl.2 key (hcalls heq)⟩
  exact h.after ⟨le_rfl, fun h => ⟨h, rfl⟩, fun _ _ _ h => h, fun _ _ h => h, fun _ _ => hidle⟩ rfl h.waiters
    (fun _ => .inl rfl) (fun _ _ hl => ⟨hcalls hl, rfl, id⟩)
    (fun l hopen hrec hne => hidle (h.cancelled l hopen hrec hne)) h.active fun _ => .inl rfl

theorem Inv.register (h : s.Inv) (key : String) (hopen : s.closeErr = none) : (s.register key 0).Inv := by
  have hloads (l) : (s.register key 0).loads l = if l = s.started then ⟨key, 0, none, .starting⟩ else s.loads l :=
    Function.update_apply ..
  have hcalls (key') : (s.register key 0).calls key' = if key' = key then some s.started else s.calls key' :=
    Function.update_apply ..
  have hidle {l} (hne : l ≠ s.started) (hl : s.Idle l) : (s.register key 0).Idle l :=
    ⟨by rw [hloads, if_neg hne]; exact hl.1, fun key' => by have := hl.2 key'; grind⟩
  have later : Later s (s.register key 0) :=
    ⟨Nat.le_succ _, fun hne => absurd hopen hne, fun l hl o ho => by rwa [hloads, if_neg hl.ne],
      fun l hl ho => by rwa [hloads, if_neg hl.ne], fun l hl => hidle hl.ne⟩
  have hstarted : (s.register key 0).started = s.started + 1 := rfl
  refine ⟨fun l => ?_, fun i => (h.callers i).later later, fun key' l hl => ?_, fun l _ hrec hne => ?_, ?_,
    fun j => (h.closers j).later later⟩
  · rw [hloads]
    split
    case isTrue heq => exact .none fun i hl => (h.held hl).1.ne heq
    case isFalse => exact h.waiters l
  · have hreg := h.registered key' l
    grind [recorded]
  · rw [hloads] at hrec hne
    split at hne
    case isTrue => exact absurd rfl hne
    case isFalse heq => exact hidle heq (h.cancelled l hopen (by rwa [if_neg heq] at hrec) hne)
  · refine h.active.add (i := s.started) (by simp) fun l => ?_
    grind [exited]

/-! ## Sections -/

theorem Inv.join (h : s.Inv) (hp : (s.callers i).phase = .entering) (hl : s.calls (s.callers i).key = some l) :
    ((s.count l ((s.loads l).waiters + 1)).moveCaller i (.waiting l)).Inv := by
  refine h.recount (by simp [Caller.Holds, hp, eq_comm]) (.inl (by simp [Caller.Holds, hp])) (fun hidle => ?_)
    (h.registered _ l hl).1
  exact absurd hl (hidle.2 _)

theorem Inv.enter (h : s.Inv) (hp : (s.callers i).phase = .entering) : (s.enter i).Inv := by
  unfold State.enter
  split
  case h_1 err hclosed => exact h.setCaller (by simp [hp, Caller.Holds]) trivial
  case h_2 hopen =>
    split
    case h_1 l hl => exact h.join hp hl
    case h_2 hl =>
      have hjoined := (h.register (s.callers i).key hopen).join hp (Function.update_self ..)
      simpa [State.register, count, State.setLoad, moveCaller, State.setCaller] using hjoined

/-- The last waiter of an unfinished load unregisters it; nobody else does. -/
theorem Inv.release {abandons : Bool} (h : s.Inv) (hp : (s.callers i).phase = .leaving l abandons) :
    (s.release i l abandons).Inv := by
  have hholds : (s.callers i).Holds l := .inr ⟨abandons, hp⟩
  obtain ⟨hl, hheld⟩ := h.held hholds
  have hwhy : if abandons then (s.callers i).ctxErr ≠ none else (s.loads l).recorded ≠ none := by
    have hsound := h.callers i
    simp only [Sound, hp] at hsound
    exact hsound.2
  have hmoved (l') (hne : l' ≠ l) : ¬(s.callers i).Holds l' := by simp [Caller.Holds, hp, hne.symm]
  unfold State.release
  split
  case isTrue hlast =>
    have hctx : (s.callers i).ctxErr ≠ none := by
      cases abandons with
      | true => simpa using hwhy
      | false => exact absurd hlast.2 (by simpa using hwhy)
    obtain ⟨hforget, hgone⟩ := h.forget l
    rw [forget_eq] at hforget hgone ⊢
    refine hforget.recount (by simpa [Caller.Holds] using hmoved) (.inr (.inl ⟨by simp [Caller.Holds], hholds, rfl⟩))
      (fun _ => hlast.1) ⟨hl, hctx, ?_, hgone⟩
    simpa [count, setLoad_loads] using hlast.1
  case isFalse hlast =>
    refine h.recount (by simpa [Caller.Holds] using hmoved) (.inr (.inl ⟨by simp [Caller.Holds], hholds, rfl⟩))
      (fun hidle => absurd hidle.1 hheld.ne') ⟨hl, fun hctx => ?_⟩
    cases abandons with
    | true => exact absurd hctx hwhy
    | false =>
      obtain ⟨o, ho⟩ := Option.ne_none_iff_exists'.1 (by simpa using hwhy)
      simp only [count, setLoad_loads, if_true, outcome, ho]
      exact ho

theorem Inv.close (h : s.Inv) (cause : Err) : (s.close j cause).Inv := by
  unfold State.close
  split
  case h_1 err hclosed => exact h.setCloser (by simp [Closed, hclosed])
  case h_2 hopen =>
    refine Inv.setCloser (h.after ?_ rfl h.waiters (fun _ => .inl rfl) (fun _ _ hl => ⟨hl, rfl, id⟩) (fun _ hne => ?_) h.active
      fun _ => .inl rfl) (by simp [Closed])
    · exact ⟨le_rfl, fun hne => absurd hopen hne, fun _ _ _ h => h, fun _ _ h => h, fun _ _ h => h⟩
    · cases hne

theorem Step.inv (hs : Step s s') (h : s.Inv) : s'.Inv := by
  cases hs with
  | call i key hp => exact h.setCaller (by simp [hp, Caller.Holds]) trivial
  | ctxEnds i err hctx => exact h.setCaller (by simp [Caller.Holds]) (h.callers i).ctxEnds
  | check i hp => refine h.setCaller (fun l => ?_) ?_ <;> cases (s.callers i).ctxErr <;> simp [hp, Caller.Holds, Sound]
  | enter i hp => exact h.enter hp
  | abandon i l hp hctx => exact h.setCaller (by simp [hp, Caller.Holds]) ⟨(h.held (.inl hp)).1, hctx⟩
  | wake i l hp hrec => exact h.setCaller (by simp [hp, Caller.Holds]) ⟨(h.held (.inl hp)).1, hrec⟩
  | release i l abandons hp => exact h.release hp
  | cancelLoad i l o hp =>
    obtain ⟨hl, hctx, hidle⟩ : l < s.started ∧ (s.callers i).ctxErr ≠ none ∧ s.Idle l := by
      simpa only [Sound, hp] using h.callers i
    refine (h.cancel (.bare (.reader .noLoadWaiters)) fun _ => hidle).setCaller (fun l' => ?_) ⟨hl, fun h => absurd h hctx⟩
    change _ ↔ (s.callers i).Holds l'
    simp [hp, Caller.Holds]
  | begin l hl hp | loadReturns l o hl hp | settle l o hl hp =>
    exact h.moveLoad (by simp [recorded, hp]) (by simp [exited, hp]) rfl rfl
  | finish l o hl hp =>
    obtain ⟨hforget, hgone⟩ := h.forget l
    unfold State.finish
    rw [forget_eq] at hforget hgone ⊢
    refine hforget.setLoad rfl rfl ?_ (.inr hgone) ?_ (by simp [recorded])
    · simp [recorded, hp]
    · simp [exited, hp]
  | cancelFinished l o hl hp =>
    have hrec : (s.loads l).recorded = some o := by simp [recorded, hp]
    exact h.setLoad rfl rfl (fun o' ho => ho ▸ hrec.symm) (.inl hrec.symm) (by simp [exited, hp]) (by simp [recorded])
  | exit l o hl hp =>
    have hrec : (s.loads l).recorded = some o := by simp [recorded, hp]
    refine h.countLoad rfl rfl (fun o' ho => ho ▸ hrec.symm) (.inl hrec.symm) (fun _ => rfl) (by simp [recorded])
      (h.active.remove ⟨hl, by simp [exited, hp]⟩ fun l' => ?_)
    by_cases heq : l' = l <;> simp [heq, exited]
  | callClose j cause hj => exact h.setCloser trivial
  | close j cause hj => exact h.close cause
  | cancelClosed j cause l loads hj =>
    have hclosed : s.closeErr ≠ none := by simpa [hj, Closed] using h.closers j
    exact (h.cancel cause fun hopen => absurd hopen hclosed).setCloser hclosed
  | closeReturns j cause hj hactive =>
    refine h.setCloser ⟨by simpa [hj, Closed] using h.closers j, fun l hl => ?_⟩
    by_contra hne
    have := h.active.pos ⟨hl, by simpa using hne⟩
    omega

theorem Reachable.inv (h : Reachable s) : s.Inv := by
  induction h with
  | initial => exact .initial
  | step _ hs ih => exact hs.inv ih

/-- Caller `i` waits for load `l`. -/
def Waits (s : State V) (i l : Nat) : Prop := (s.callers i).phase = .waiting l

/-- A caller of `key` that enters now joins load `l`. -/
def Joinable (s : State V) (key : String) (l : Nat) : Prop := s.closeErr = none ∧ s.calls key = some l

theorem Inv.cause_of_joinable (h : s.Inv) {key : String} (hl : s.Joinable key l) : (s.loads l).cause = none := by
  by_contra hne
  exact (h.cancelled l hl.1 (h.registered key l hl.2).2.2 hne).2 key hl.2

theorem Waits.moved {k : Nat} (h : (s.setCaller k c).Waits i l) : s.Waits i l ∨ i = k ∧ c.phase = .waiting l := by
  have hcallers : (s.setCaller k c).callers i = if i = k then c else s.callers i := Function.update_apply ..
  rw [Waits, hcallers] at h
  split at h
  · exact .inr ⟨‹_›, h⟩
  · exact .inl h

/-- Only a caller that enters comes to wait, for a load that others may then join too. -/
theorem Step.joinable (hs : Step s s') (hnew : s'.Waits i l) (hold : ¬s.Waits i l) : ∃ key, s'.Joinable key l := by
  cases hs with
  | enter k hp =>
    unfold State.enter at hnew ⊢
    split
    case h_1 err hclosed =>
      rw [hclosed] at hnew
      exact absurd hnew.moved (by simp [hold])
    case h_2 hopen =>
      rw [hopen] at hnew
      split
      case h_1 l' hl =>
        simp only [hl] at hnew
        obtain ⟨-, ⟨⟩⟩ := hnew.moved.resolve_left hold
        exact ⟨_, hopen, hl⟩
      case h_2 hl =>
        simp only [hl] at hnew
        obtain ⟨-, ⟨⟩⟩ := hnew.moved.resolve_left hold
        exact ⟨_, hopen, Function.update_self ..⟩
  | ctxEnds k err hctx =>
    obtain ⟨rfl, hp⟩ := hnew.moved.resolve_left hold
    exact absurd hp hold
  | check k hp =>
    obtain ⟨-, hphase⟩ := hnew.moved.resolve_left hold
    split at hphase <;> cases hphase
  | call k key hp | abandon k l' hp hctx | wake k l' hp hrec | cancelLoad k l' o hp =>
    obtain ⟨-, ⟨⟩⟩ := hnew.moved.resolve_left hold
  | release k l' abandons hp =>
    unfold State.release at hnew
    split at hnew
    · rw [forget_eq] at hnew
      obtain ⟨-, ⟨⟩⟩ := hnew.moved.resolve_left hold
    · obtain ⟨-, ⟨⟩⟩ := hnew.moved.resolve_left hold
  | finish l' o hl hp =>
    rw [State.finish, forget_eq] at hnew
    exact absurd hnew hold
  | close j cause hj =>
    unfold State.close at hnew
    split at hnew <;> exact absurd hnew hold
  | _ => exact absurd hnew hold

theorem Step.started_of_closed (hs : Step s s') (hclosed : s.closeErr ≠ none) : s'.started = s.started := by
  cases hs with
  | enter i hp =>
    obtain ⟨err, herr⟩ := Option.ne_none_iff_exists'.1 hclosed
    simp only [State.enter, herr]
    rfl
  | release i l abandons hp =>
    unfold State.release
    split
    · rw [forget_eq]
      rfl
    · rfl
  | finish l o hl hp =>
    rw [State.finish, forget_eq]
    rfl
  | close j cause hj =>
    unfold State.close
    split <;> rfl
  | _ => rfl

/-- In every state of every interleaving: a load that has not returned is cancelled under a waiting caller only after `Close`;
a key has one joinable load, and a caller that comes to wait joins one that is not cancelled and that nobody is about to
cancel; a caller returns what its load recorded unless its own context ended; a `Close` that returned left no load behind, and
after `Close` took effect none is started. -/
theorem loads_respect_their_waiters (h : Reachable s) :
    (∀ i l, s.Waits i l → (s.loads l).loading → (s.loads l).cause ≠ none → s.closeErr ≠ none) ∧
    (∀ key l l', s.Joinable key l → s.Joinable key l' → l = l') ∧
    (∀ s', Step s s' → ∀ i l, s'.Waits i l → ¬s.Waits i l → (s'.loads l).cause = none ∧
      ∀ j o, (s'.callers j).phase ≠ .cancelling l o) ∧
    (∀ i l o, (s.callers i).phase = .returned (some l) o → (s.callers i).ctxErr = none → (s.loads l).recorded = some o) ∧
    (∀ j, s.closers j = .returned → ∀ l < s.started, (s.loads l).exited) ∧
    ∀ s', Step s s' → s.closeErr ≠ none → s'.started = s.started := by
  refine ⟨fun i l hp hloading hcause hopen => ?_, fun key l l' hl hl' => Option.some.inj (hl.2.symm.trans hl'.2),
    fun s' hs i l hnew hold => ?_, fun i l o hp hctx => ?_, fun j hj => ?_, fun s' hs => hs.started_of_closed⟩
  · have hrec : (s.loads l).recorded = none := by
      unfold LoadCall.loading at hloading
      unfold LoadCall.recorded
      split at hloading <;> simp_all
    exact absurd (h.inv.cancelled l hopen hrec hcause).1 (h.inv.held (.inl hp)).2.ne'
  · obtain ⟨key, hl⟩ := hs.joinable hnew hold
    refine ⟨(hs.inv h.inv).cause_of_joinable hl, fun j o hp => ?_⟩
    have hsound := (hs.inv h.inv).callers j
    simp only [Sound, hp] at hsound
    exact hsound.2.2.2 key hl.2
  · have hsound := h.inv.callers i
    simp only [Sound, hp] at hsound
    exact hsound.2 hctx
  · have hclosed := h.inv.closers j
    rw [hj] at hclosed
    exact hclosed.2

/-- One caller, one load that returns `7`. -/
theorem one_load_returns_to_its_caller : ∃ s : State Nat, (s.callers 0).phase = .returned (some 0) (some 7, none) ∧
    (s.callers 0).ctxErr = none ∧ (s.loads 0).recorded = some (some 7, none) := by
  have called := (Reachable.initial (V := Nat)).step (.call 0 "k" rfl)
  have entered := (called.step (.check 0 rfl)).step (.enter 0 rfl)
  have loaded := (entered.step (.begin 0 (by decide) rfl)).step (.loadReturns 0 (some 7, none) (by decide) rfl)
  have finished := (loaded.step (.settle 0 _ (by decide) rfl)).step (.finish 0 _ (by decide) rfl)
  have released := (finished.step (.wake 0 0 rfl (by decide))).step (.release 0 0 false rfl)
  exact ⟨_, rfl, rfl, (loads_respect_their_waiters released).2.2.2.1 0 0 _ rfl rfl⟩

end State

end ObjLog.Reader.LoadGroup
