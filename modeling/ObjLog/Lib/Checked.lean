import ObjLog.Lib.Bytes
/-!
# Slices that may be out of range

Go stops a program that slices past the end of its input. `sliceAt` is that
slice: it stops with `outOfRange` where `slice` would return fewer bytes. A
reader written with `sliceAt` that equals `Checked.of` of the same reader written
with `slice` never leaves its input.
-/

namespace ObjLog.Lib

variable {α β ε : Type}

/-- A run-time fault, or an error the program returns. -/
inductive Stop (ε : Type) where
  | outOfRange
  | error (e : ε)
deriving DecidableEq

abbrev Checked (ε : Type) := Except (Stop ε)

/-- Go's `src[a:b]`, bounds check included. -/
def sliceAt (src : Bytes) (a b : Nat) : Checked ε Bytes :=
  if a ≤ b ∧ b ≤ src.length then .ok (slice src a b) else .error .outOfRange

namespace Checked

/-- A computation without slices. -/
def of (x : Except ε α) : Checked ε α := x.mapError .error

/-- Restate the errors; a fault stays a fault. -/
def mapError (f : ε → ε) (x : Checked ε α) : Checked ε α :=
  Except.mapError (fun | .outOfRange => .outOfRange | .error e => .error (f e)) x

theorem of_ne_outOfRange (x : Except ε α) : of x ≠ .error .outOfRange := by
  cases x <;> simp [of, Except.mapError]

/-- The rest of the program runs on what the first part returned. -/
theorem bind_of {x : Except ε α} {k : α → Checked ε β} {k' : α → Except ε β} (h : ∀ a, x = .ok a → k a = of (k' a)) :
    (of x >>= k) = of (x >>= k') := by
  cases x with
  | error e => rfl
  | ok a => exact h a rfl

/-- A slice in range. -/
theorem sliceAt_bind {src : Bytes} {a b : Nat} {k : Bytes → Checked ε β} (hab : a ≤ b) (hb : b ≤ src.length) :
    (sliceAt src a b >>= k) = k (slice src a b) := by
  rw [sliceAt, if_pos ⟨hab, hb⟩]
  rfl

end Checked

end ObjLog.Lib
