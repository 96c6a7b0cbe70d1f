import ObjLog.Catengine.Determinate
import ObjLog.Catengine.Engine
import ObjLog.Catengine.Sealing
/-!
# The store the engines share

The objects of one partition. The head is one register; `log` keeps every body
it ever held, oldest first, so the token of the `n`th body is `n` and the empty
token is `0`. Pages are immutable: a `Put` of other bytes under a taken key is
refused.

`Act` is what one operation can do. A compare-and-swap or a `Put` takes effect
once or not at all, and may answer with a transport error either way; reads and
context checks may fail too. Who committed a head is recorded beside its body
and never read by the engine.
-/

namespace ObjLog.Catengine

open Lib Catformat Pmeta Blobstore

variable {e : Err} {key : String}

/-- A process is named by the writer id it opens with, so no two processes share one. -/
abbrev Pid := Arr 16

/-- Who made a head durable. Each opened writer and each initialization is a process of its own. -/
inductive Author where
  | initializer (pid : Pid)
  | opener (pid : Pid)
  | session (pid : Pid) (writerEpoch : UInt64)
deriving DecidableEq

def Author.pid : Author → Pid
  | initializer pid => pid
  | opener pid => pid
  | session pid _ => pid

structure Commit where
  author : Author
  body : Bytes
deriving DecidableEq

structure World where
  log : List Commit
  pages : Pages

/-- An error of the provider or the context: it carries none of the catalog's sentinels and does
not say that an object is absent. -/
def Foreign (e : Err) : Prop := e.sentinels = [.transport] ∨ e.sentinels = [.canceled]

theorem Foreign.is_eq_false (h : Foreign e) {s : Sentinel} (ht : s ≠ .transport) (hc : s ≠ .canceled) :
    e.is s = false := by
  rcases h with h | h
  · simp [Err.is, h, ht]
  · simp [Err.is, h, hc]

theorem Foreign.determinate (h : Foreign e) : Determinate e := h.is_eq_false (by decide) (by decide)

variable [Hashes]

namespace World

/-- The head object. -/
def current (w : World) : Option Object := w.log.getLast?.map fun c => ⟨c.body, w.log.length⟩

def object (config : Config) (w : World) (key : String) : Option Object :=
  if key = config.headPath then w.current else (w.pages key).map fun body => ⟨body, 1⟩

def read (config : Config) (w : World) (key : String) : Except Err Object :=
  match w.object config key with
  | some object => .ok object
  | none => .error (.bare .objectNotFound)

def write (w : World) (key : String) (body : Bytes) : World :=
  { w with pages := fun k => if k = key then some body else w.pages k }

def commit (w : World) (author : Author) (body : Bytes) : World :=
  { w with log := w.log ++ [⟨author, body⟩] }

omit [Hashes] in
/-- The last version of a log that has one. -/
theorem exists_last {w : World} (h : w.log ≠ []) :
    ∃ n c, w.log.length = n + 1 ∧ w.log[n]? = some c ∧ w.current = some ⟨c.body, n + 1⟩ := by
  obtain ⟨c, hc⟩ : ∃ c, w.log.getLast? = some c := ⟨_, List.getLast?_eq_some_getLast h⟩
  obtain ⟨n, hn⟩ := Nat.exists_eq_succ_of_ne_zero (mt List.length_eq_zero_iff.1 h)
  refine ⟨n, c, hn, ?_, ?_⟩
  · rw [List.getLast?_eq_getElem?, hn] at hc
    exact hc
  · rw [current, hc, hn]
    rfl

theorem read_head {config : Config} {w : World} : w.read config config.headPath =
    match w.current with
    | some object => .ok object
    | none => .error (.bare .objectNotFound) := by
  rw [read, object, if_pos rfl]

/-- A page read. -/
theorem read_page {config : Config} {w : World} (hne : key ≠ config.headPath) {o : Object} :
    w.read config key = .ok o ↔ w.pages key = some o.body ∧ o.token = 1 := by
  cases o
  rw [read, object, if_neg hne]
  cases w.pages key <;> simp [eq_comm]

end World

inductive Act (config : Config) (author : Author) (w : World) : (op : Op) → op.Answer → World → Prop
  | live : Act config author w .ctxErr none w
  | ended {e : Err} : Foreign e → Act config author w .ctxErr (some e) w
  | waited : Act config author w .wait none w
  | interrupted {e : Err} : Foreign e → Act config author w .wait (some e) w
  | read {key : String} : Act config author w (.get key) (w.read config key) w
  | unread {key : String} {e : Err} : Foreign e → Act config author w (.get key) (.error e) w
  | put {key : String} {body : Bytes} : key ≠ config.headPath → w.pages key = none →
      Act config author w (.put key body) (.ok ⟨body, 1⟩) (w.write key body)
  | putLost {key : String} {body : Bytes} {e : Err} : Foreign e → key ≠ config.headPath → w.pages key = none →
      Act config author w (.put key body) (.error e) (w.write key body)
  | putAgain {key : String} {body : Bytes} : key ≠ config.headPath → w.pages key = some body →
      Act config author w (.put key body) (.ok ⟨body, 1⟩) w
  | putConflict {key : String} {body other : Bytes} : key ≠ config.headPath → w.pages key = some other →
      other ≠ body → Act config author w (.put key body) (.error (.of .immutableConflict key)) w
  | unput {key : String} {body : Bytes} {e : Err} : Foreign e → Act config author w (.put key body) (.error e) w
  | swap {expected : Token} {body : Bytes} : expected = w.log.length →
      Act config author w (.cas config.headPath expected body) (.ok (⟨body, w.log.length + 1⟩, true))
        (w.commit author body)
  | swapLost {expected : Token} {body : Bytes} {e : Err} : Foreign e → expected = w.log.length →
      Act config author w (.cas config.headPath expected body) (.error e) (w.commit author body)
  | mismatch {expected : Token} {body : Bytes} : expected ≠ w.log.length →
      Act config author w (.cas config.headPath expected body) (.ok (w.current.getD ⟨[], 0⟩, false)) w
  | unswapped {key : String} {expected : Token} {body : Bytes} {e : Err} : Foreign e →
      Act config author w (.cas key expected body) (.error e) w

/-! ## What each operation can do -/

section
variable {config : Config} {author : Author} {w w' : World}

theorem act_ctxErr {a : Option Err} (h : Act config author w .ctxErr a w') : w' = w ∧ ∀ e, a = some e → Foreign e := by
  cases h with
  | live => exact ⟨rfl, fun e he => by cases he⟩
  | ended hf => exact ⟨rfl, fun e he => by cases he; exact hf⟩

theorem act_wait {a : Option Err} (h : Act config author w .wait a w') : w' = w := by
  cases h with
  | waited => rfl
  | interrupted _ => rfl

theorem act_get {a : Except Err Object} (h : Act config author w (.get key) a w') :
    w' = w ∧ (a = w.read config key ∨ ∃ e, Foreign e ∧ a = .error e) := by
  cases h with
  | read => exact ⟨rfl, .inl rfl⟩
  | unread hf => exact ⟨rfl, .inr ⟨_, hf, rfl⟩⟩

theorem read_error (h : w.read config key = .error e) : Determinate e := by
  unfold World.read at h
  split at h
  · cases h
  · cases h
    rfl

/-- A `Put` leaves the log alone, keeps every page, and stores the page where it says so. -/
theorem act_put {body : Bytes} {a : Except Err Object} (h : Act config author w (.put key body) a w') :
    w'.log = w.log ∧ Grows w.pages w'.pages ∧ (∀ o, a = .ok o → w'.pages key = some body) ∧
      ∀ e, a = .error e → Determinate e := by
  have hwrite (hnone : w.pages key = none) : Grows w.pages (w.write key body).pages := by
    intro k b hb
    by_cases hk : k = key
    · rw [hk, hnone] at hb
      cases hb
    · simp only [World.write, if_neg hk, hb]
  cases h with
  | put _ hnone => exact ⟨rfl, hwrite hnone, fun o _ => by simp [World.write], fun e he => by cases he⟩
  | putLost hf _ hnone =>
    refine ⟨rfl, hwrite hnone, fun o ho => (by cases ho), fun e he => ?_⟩
    cases he
    exact hf.determinate
  | putAgain _ hsome => exact ⟨rfl, fun _ _ hb => hb, fun _ _ => hsome, fun e he => by cases he⟩
  | putConflict _ _ _ =>
    refine ⟨rfl, fun _ _ hb => hb, fun o ho => (by cases ho), fun e he => ?_⟩
    cases he
    rfl
  | unput hf =>
    refine ⟨rfl, fun _ _ hb => hb, fun o ho => (by cases ho), fun e he => ?_⟩
    cases he
    exact hf.determinate

/-- A compare-and-swap of the head. -/
theorem act_cas {expected : Token} {body : Bytes} {a : Except Err (Object × Bool)}
    (h : Act config author w (.cas config.headPath expected body) a w') :
    (expected = w.log.length ∧ w' = w.commit author body ∧
      (a = .ok (⟨body, w.log.length + 1⟩, true) ∨ ∃ e, Foreign e ∧ a = .error e)) ∨
    (w' = w ∧ ((expected ≠ w.log.length ∧ a = .ok (w.current.getD ⟨[], 0⟩, false)) ∨
      ∃ e, Foreign e ∧ a = .error e)) := by
  cases h with
  | swap he => exact .inl ⟨he, rfl, .inl rfl⟩
  | swapLost hf he => exact .inl ⟨he, rfl, .inr ⟨_, hf, rfl⟩⟩
  | mismatch hne => exact .inr ⟨rfl, .inl ⟨hne, rfl⟩⟩
  | unswapped hf => exact .inr ⟨rfl, .inr ⟨_, hf, rfl⟩⟩

end

end ObjLog.Catengine
