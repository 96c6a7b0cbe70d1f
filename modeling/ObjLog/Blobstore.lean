import ObjLog.Lib.Prog
import ObjLog.Errors
/-!
# The object store interface, `blobstore/blobstore.go`

The operations catalog code performs on a store and on its context, as the
effects of a program. `M` is a computation that may perform them and may fail.
-/

namespace ObjLog.Blobstore

open Lib

/-- A provider token; `0` is the empty token, which no stored object has. -/
abbrev Token := Nat

structure Object where
  body : Bytes
  token : Token
deriving DecidableEq

inductive Op where
  /-- `ctx.Err()`. -/
  | ctxErr
  /-- `Store.Get`. -/
  | get (key : String)
  /-- `Store.Put`, immutable. -/
  | put (key : String) (body : Bytes)
  /-- `Store.CompareAndSwap`; the empty token means create if absent. -/
  | cas (key : String) (expected : Token) (body : Bytes)
  /-- `waitBackoff`: the context's error if it ends before the timer. -/
  | wait

/-- What each operation answers. -/
@[reducible] def Op.Answer : Op → Type
  | .ctxErr => Option Err
  | .get _ => Except Err Object
  | .put _ _ => Except Err Object
  | .cas _ _ _ => Except Err (Object × Bool)
  | .wait => Option Err

abbrev Effects := Prog Op Op.Answer

abbrev M := ExceptT Err Effects

/-- Fail when the context has ended. -/
def checkCtx : M Unit := do
  let err : Option Err ← ExceptT.lift (Prog.perform Op.ctxErr)
  match err with
  | none => pure ()
  | some e => throw e

def get (key : String) : M Object := ExceptT.mk (Prog.perform (Op.get key))

def put (key : String) (body : Bytes) : M Object := ExceptT.mk (Prog.perform (Op.put key body))

def compareAndSwap (key : String) (expected : Token) (body : Bytes) : M (Object × Bool) :=
  ExceptT.mk (Prog.perform (Op.cas key expected body))

def waitBackoff : M Unit := do
  let err : Option Err ← ExceptT.lift (Prog.perform Op.wait)
  match err with
  | none => pure ()
  | some e => throw e

/-- The call's result and error as a value, where the source goes on after an error. -/
def attempt {α : Type} (x : M α) : M (Except Err α) := ExceptT.lift x.run

/-! ## Running against fixed objects -/

/-- Answers reads from `pages`; the context stays live, writes are not served. -/
def serve (pages : String → Option Bytes) : (op : Op) → op.Answer
  | .ctxErr => none
  | .get key =>
    match pages key with
    | some body => .ok ⟨body, 1⟩
    | none => .error (.bare .objectNotFound)
  | .put _ _ => .error (.bare .transport)
  | .cas _ _ _ => .error (.bare .transport)
  | .wait => none

/-- The result of a computation that reads `pages`. -/
def eval {α : Type} (pages : String → Option Bytes) (x : M α) : Except Err α := Prog.run (serve pages) x.run

section
variable {α β : Type} (pages : String → Option Bytes)

@[simp] theorem eval_pure (a : α) : eval pages (pure a) = .ok a := rfl

@[simp] theorem eval_throw (e : Err) : eval pages (throw e : M α) = .error e := rfl

@[simp] theorem eval_bind (x : M α) (f : α → M β) : eval pages (x >>= f) = eval pages x >>= fun a => eval pages (f a) := by
  simp only [eval, ExceptT.run_bind, Prog.run_bind]
  cases Prog.run (serve pages) x.run <;> rfl

@[simp] theorem eval_lift (x : Except Err α) : eval pages (liftM x : M α) = x := by
  cases x <;> rfl

@[simp] theorem eval_adapt (f : Err → Err) (x : M α) : eval pages (ExceptT.adapt f x) = restate (eval pages x) f := by
  change Prog.run (serve pages) (Except.mapError f <$> x.run) = _
  rw [map_eq_pure_bind, Prog.run_bind]
  simp only [eval, Prog.pure_def, Prog.run_ret]
  cases Prog.run (serve pages) x.run <;> rfl

@[simp] theorem eval_checkCtx : eval pages checkCtx = .ok () := rfl

theorem eval_get (key : String) : eval pages (get key) =
    match pages key with
    | some body => .ok ⟨body, 1⟩
    | none => .error (.bare .objectNotFound) := rfl

theorem eval_get_ok {key : String} {object : Object} :
    eval pages (get key) = .ok object ↔ pages key = some object.body ∧ object.token = 1 := by
  rw [eval_get]
  cases object
  cases pages key <;> simp [eq_comm]

/-- What it says that a computation over fixed objects succeeds. -/
theorem reads_ok : (∀ (pages : String → Option Bytes) {α β : Type} (x : M α) (f : α → M β),
      eval pages (x >>= f) = eval pages x >>= fun a => eval pages (f a)) ∧
    (∀ pages {α : Type} (x : Except Err α), eval pages (liftM x : M α) = x) ∧
    (∀ pages {α : Type} {a b : α}, eval pages (pure a) = .ok b ↔ a = b) ∧ (∀ pages, eval pages checkCtx = .ok ()) ∧
    ∀ {α β : Type} {a c : α} {b d : β}, (a, b) = (c, d) ↔ a = c ∧ b = d :=
  ⟨fun pages => eval_bind pages, fun pages => eval_lift pages, fun _ => pure_ok, fun _ => rfl, Prod.mk_inj⟩

end

end ObjLog.Blobstore
