import ObjLog.Stream.Programs
/-!
# Reading the history of an upload

What the log says of the calls of the session, of the results of `Write` and of
the aborts, and how one more event changes it.
-/

namespace ObjLog.Stream

open Lib Multipart

/-- A call of the session's `Commit` has not returned. -/
def inCommit (log : List Event) : Bool :=
  log.foldl (fun b e => match e with | .commitBegan _ => true | .commitEnded _ _ => false | _ => b) false

/-- A call of the session's `Cleanup` has not returned. -/
def inCleanup (log : List Event) : Bool :=
  log.foldl (fun b e => match e with | .cleanupBegan => true | .cleanupEnded _ => false | _ => b) false

/-- An answer of the session's `Commit` that is neither success nor a definite failure. -/
def undecided : Except Err ObjectAttrs → Bool
  | .ok _ => false
  | .error err => !definite err

/-- The last call of the session's `Commit` that returned failed, and not definitely. -/
def ambiguous (log : List Event) : Bool :=
  log.foldl (fun b e => match e with | .commitEnded _ result => undecided result | _ => b) false

/-- The inputs of the `Write` calls that returned nil. -/
def written (log : List Event) : Bytes :=
  (log.filterMap fun e => match e with | .wrote data => some data | _ => none).flatten

def CommitCalled (log : List Event) : Prop := ∃ request, .commitBegan request ∈ log

/-- Some `Write` failed with some of its bytes accepted. -/
def Torn (log : List Event) : Prop := ∃ data, .tore data ∈ log

/-- No abort took the upload over while a retried commit had sealed it again. -/
def Calm (log : List Event) : Prop := ∀ found indeterminate, .abortBegan found indeterminate ∈ log → found ≠ .sealed

/-- What a call of the session asks of the calls before it. -/
def Fits (log : List Event) : Event → Prop
  | .commitBegan _ => inCommit log = false ∧ inCleanup log = false ∧ .cleanupBegan ∉ log
  | .cleanupBegan => inCommit log = false ∧ inCleanup log = false
  | .putBegan _ _ => ¬CommitCalled log
  | _ => True

inductive Orderly : List Event → Prop
  | nil : Orderly []
  | snoc {log : List Event} {e : Event} : Orderly log → Fits log e → Orderly (log ++ [e])

/-- Every event of an orderly log fits what came before it. -/
theorem Orderly.fits {log before after : List Event} {e : Event} (h : Orderly log) (hsplit : log = before ++ e :: after) :
    Fits before e := by
  induction h generalizing after with
  | nil => exact absurd hsplit (by simp)
  | snoc _ hx ih =>
    rcases List.eq_nil_or_concat after with rfl | ⟨rest, y, rfl⟩
    · obtain ⟨rfl, hxe⟩ := List.append_inj' hsplit rfl
      obtain rfl := List.head_eq_of_cons_eq hxe
      exact hx
    · rw [List.concat_eq_append, ← List.cons_append, ← List.append_assoc] at hsplit
      exact ih (List.append_inj' hsplit rfl).1

/-! ## One more event -/

section Append
variable (log : List Event) (e : Event)

theorem inCommit_append : inCommit (log ++ [e]) =
    match e with | .commitBegan _ => true | .commitEnded _ _ => false | _ => inCommit log := by
  rw [inCommit, List.foldl_append]
  cases e <;> rfl

theorem inCleanup_append : inCleanup (log ++ [e]) =
    match e with | .cleanupBegan => true | .cleanupEnded _ => false | _ => inCleanup log := by
  rw [inCleanup, List.foldl_append]
  cases e <;> rfl

theorem ambiguous_append : ambiguous (log ++ [e]) =
    match e with | .commitEnded _ result => undecided result | _ => ambiguous log := by
  rw [ambiguous, List.foldl_append]
  cases e <;> rfl

theorem written_append : written (log ++ [e]) = written log ++ (match e with | .wrote data => data | _ => []) := by
  rw [written, List.filterMap_append, List.flatten_append]
  cases e <;> simp [written]

/-- The events of the session's `Commit` and `Cleanup`. -/
def Event.calls : Event → Bool
  | .commitBegan _ | .commitEnded _ _ | .cleanupBegan | .cleanupEnded _ => true
  | _ => false

variable {e} in
theorem append_quiet (he : e.calls = false) : inCommit (log ++ [e]) = inCommit log ∧
    inCleanup (log ++ [e]) = inCleanup log ∧ ambiguous (log ++ [e]) = ambiguous log := by
  rw [inCommit_append, inCleanup_append, ambiguous_append]
  cases e with
  | commitBegan | commitEnded | cleanupBegan | cleanupEnded => cases he
  | _ => exact ⟨rfl, rfl, rfl⟩

theorem commitCalled_append : CommitCalled (log ++ [e]) ↔ CommitCalled log ∨ ∃ request, e = .commitBegan request := by
  simp only [CommitCalled, List.mem_append, List.mem_singleton, exists_or, eq_comm]

theorem torn_append : Torn (log ++ [e]) ↔ Torn log ∨ ∃ data, e = .tore data := by
  simp only [Torn, List.mem_append, List.mem_singleton, exists_or, eq_comm]

end Append

/-- Some call of the session's `Commit` returned. -/
theorem exists_of_ambiguous {log : List Event} (h : ambiguous log = true) :
    ∃ request result, .commitEnded request result ∈ log := by
  induction log using List.reverseRecOn with
  | nil => cases h
  | append_singleton log e ih =>
    rw [ambiguous_append] at h
    split at h
    · exact ⟨_, _, List.mem_append_right _ (List.mem_singleton_self _)⟩
    · obtain ⟨request, result, hmem⟩ := ih h
      exact ⟨request, result, List.mem_append_left _ hmem⟩

theorem Calm.of_append {log : List Event} {e : Event} (h : Calm (log ++ [e])) : Calm log :=
  fun found ind hmem => h found ind (List.mem_append_left _ hmem)

end ObjLog.Stream
