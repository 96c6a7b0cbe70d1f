import ObjLog.Catengine.Retention
/-!
# Errors that leave no commit in doubt

`ErrCommitIndeterminate` is what a session answers when it cannot tell whether
its commit took effect. No validation, codec or tree operation returns it, so an
error with that sentinel always comes from a commit.
-/

namespace ObjLog.Catengine

open Lib Catformat Pmeta Blobstore

/-- The error does not say that a commit's outcome is unknown. -/
def Determinate (e : Err) : Prop := e.is .commitIndeterminate = false

variable {text : String} {e : Err}

@[simp] theorem determinate_of {s : Sentinel} : Determinate (.of s text) ↔ s ≠ .commitIndeterminate := by
  simp [Determinate, Err.is, Err.of, eq_comm]

@[simp] theorem determinate_plain : Determinate (.plain text) := rfl

@[simp] theorem determinate_invalidf : Determinate (invalidf text) := rfl

/-- Every error of the computation is determinate. -/
def Decided {α : Type} (x : Except Err α) : Prop := ∀ e, x = .error e → Determinate e

section
variable {α β : Type} {x : Except Err α}

@[simp] theorem decided_ok (a : α) : Decided (.ok a) := fun e h => by cases h

@[simp] theorem decided_pure (a : α) : Decided (pure a) := decided_ok a

@[simp] theorem decided_error : Decided (.error e : Except Err α) ↔ Determinate e := by
  simp [Decided]

@[simp] theorem decided_throw : Decided (throw e : Except Err α) ↔ Determinate e := decided_error

@[simp] theorem decided_failIf {c : Prop} [Decidable c] : Decided (failIf c e) ↔ (c → Determinate e) := by
  by_cases h : c <;> simp [failIf, h]

@[simp] theorem decided_restate {f : Err → Err} : Decided (restate x f) ↔ ∀ e, x = .error e → Determinate (f e) := by
  cases x <;> simp [restate]

/-- What comes after a step is reached only where the step succeeds. -/
@[simp] theorem decided_bind {f : α → Except Err β} :
    Decided (x >>= f) ↔ Decided x ∧ ∀ a, x = .ok a → Decided (f a) := by
  cases x <;> simp [bind, Except.bind]

@[simp] theorem decided_map {f : α → β} : Decided (f <$> x) ↔ Decided x := by
  cases x <;> simp [Functor.map, Except.map]

@[simp] theorem decided_ite {c : Prop} [Decidable c] {y : Except Err α} :
    Decided (if c then x else y) ↔ (c → Decided x) ∧ (¬c → Decided y) := by
  by_cases h : c <;> simp [h]

theorem decided_foldlM {f : β → α → Except Err β} (hf : ∀ b a, Decided (f b a)) (l : List α) (b : β) :
    Decided (l.foldlM f b) := by
  induction l generalizing b with
  | nil => exact decided_pure b
  | cons a l ih => simp [hf, ih]

end

/-! ## Validation -/

@[simp] theorem decided_validateCommonPageHeader (h : PageHeader) : Decided (validateCommonPageHeader h) := by
  simp [validateCommonPageHeader]

@[simp] theorem decided_validateLeafEntries (i : Nat) (previous : Option LeafEntry) (l : List LeafEntry) :
    Decided (validateLeafEntries i previous l) := by
  induction l generalizing i previous with
  | nil => exact decided_pure _
  | cons e l ih => cases previous <;> simp [validateLeafEntries, ih]

@[simp] theorem decided_validateLeafPage (page : LeafPage) : Decided (validateLeafPage page) := by
  simp [validateLeafPage]

@[simp] theorem decided_validateIndexEntries (h : PageHeader) (i : Nat) (previous : Option IndexEntry) (n : UInt64)
    (l : List IndexEntry) : Decided (validateIndexEntries h i previous n l) := by
  induction l generalizing i previous n with
  | nil => exact decided_pure _
  | cons e l ih => cases previous <;> simp [validateIndexEntries, ih]

@[simp] theorem decided_validateIndexPage (page : IndexPage) : Decided (validateIndexPage page) := by
  simp [validateIndexPage]

@[simp] theorem decided_validateSectionEntries (h : HeadHeader) (s : OpenIndexSection) (j : Nat) (l : List IndexEntry) :
    Decided (validateSectionEntries h s j l) := by
  induction l generalizing j with
  | nil => exact decided_pure _
  | cons e l ih => simp [validateSectionEntries, ih]

@[simp] theorem decided_validateSections (h : HeadHeader) (i : Nat) (l : List OpenIndexSection) :
    Decided (validateSections h i l) := by
  induction l generalizing i with
  | nil => exact decided_pure _
  | cons s l ih => simp [validateSections, ih]

@[simp] theorem decided_validateActive (h : HeadHeader) (i : Nat) (previous : Option LeafEntry) (l : List LeafEntry) :
    Decided (validateActive h i previous l) := by
  induction l generalizing i previous with
  | nil => exact decided_pure _
  | cons e l ih => cases previous <;> simp [validateActive, ih]

@[simp] theorem decided_validateRoots (oldest : UInt64) (i : Nat) (previous : Option RootRange) (n : UInt64)
    (l : List RootRange) : Decided (validateRoots oldest i previous n l) := by
  induction l generalizing i previous n with
  | nil => exact decided_pure _
  | cons r l ih => cases previous <;> simp [validateRoots, ih]

@[simp] theorem decided_validateHead (head : Head) : Decided (validateHead head) := by
  have hheader : Decided (validateHeadHeader head) := by simp [validateHeadHeader]
  have hhistory : Decided (validateHistory head) := by simp [validateHistory]
  simp [validateHead, hheader, hhistory]

@[simp] theorem decided_validateConfigHead (config : Config) (head : Head) :
    Decided (validateConfigHead config head) := by
  simp [validateConfigHead]

/-! ## The codec -/

@[simp] theorem decided_validateHashAlgo (algo : HashAlgo) : Decided (validateHashAlgo algo) := by
  simp [validateHashAlgo]

section
variable [Hashes]

@[simp] theorem decided_hashBytes (algo : HashAlgo) (data : Bytes) : Decided (hashBytes algo data) := by
  simp [hashBytes]

@[simp] theorem decided_appendTrailer (body : Bytes) (algo : HashAlgo) : Decided (appendTrailer body algo) := by
  simp [appendTrailer]

@[simp] theorem decided_marshalHead (head : Head) : Decided (marshalHead head) := by
  simp [marshalHead]

@[simp] theorem decided_verifyTrailer (encoded : Bytes) (algo : HashAlgo) : Decided (verifyTrailer encoded algo) := by
  simp [verifyTrailer]

@[simp] theorem decided_parsePage (encoded : Bytes) (magic : Magic) : Decided (parsePage encoded magic) := by
  have hheader (src : Bytes) : Decided (parsePageHeader src) := by simp [parsePageHeader]
  simp [parsePage, hheader]

omit [Hashes] in
@[simp] theorem decided_parseEntries {α : Type} (size : Nat) (parse : Bytes → Except Err α) (name : Nat → String)
    (encoded : Bytes) (count i offset : Nat) : Decided (parseEntries size parse name encoded count i offset) := by
  induction count generalizing i offset with
  | zero => exact decided_pure _
  | succ count ih => simp [parseEntries, ih]

theorem decided_checkLeaf (config : Config) (ref : IndexEntry) (e : UInt64) (body : Bytes) :
    Decided (checkLeaf config ref e body) := by
  have hparse : Decided (parseLeafPage body) := by simp [parseLeafPage]
  simp only [checkLeaf, decided_bind, decided_restate, decided_failIf, decided_pure]
  exact ⟨fun e he => hparse e he, fun _ _ => ⟨fun _ => rfl, fun _ _ => trivial⟩⟩

theorem decided_checkIndex (config : Config) (ref : IndexEntry) (e : UInt64) (body : Bytes) :
    Decided (checkIndex config ref e body) := by
  have hparse : Decided (parseIndexPage body) := by simp [parseIndexPage]
  simp only [checkIndex, decided_bind, decided_restate, decided_failIf, decided_pure]
  exact ⟨fun e he => hparse e he, fun _ _ => ⟨fun _ => rfl, fun _ _ => trivial⟩⟩

/-! ## The tree -/

theorem decided_sealLeaf (config : Config) (generation e : UInt64) (entries : List LeafEntry) :
    Decided (sealLeaf config generation e entries) := by
  unfold sealLeaf
  split <;> simp [marshalLeafPage]

theorem decided_sealIndex (config : Config) (generation e : UInt64) (level : UInt8) (entries : List IndexEntry) :
    Decided (sealIndex config generation e level entries) := by
  have hadd (total : UInt64) (entry : IndexEntry) : Decided (addSegments total entry) := by simp [addSegments]
  unfold sealIndex
  split <;> simp [decided_foldlM hadd, marshalIndexPage]

omit [Hashes] in
theorem decided_reachableSegmentCount (head : Head) : Decided (reachableSegmentCount head) := by
  have hadd (count : UInt64) (ref : IndexEntry) : Decided (addReachable count ref) := by simp [addReachable]
  simp [reachableSegmentCount, decided_foldlM hadd]

end

end ObjLog.Catengine
