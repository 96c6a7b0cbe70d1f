import Mathlib.Data.List.Basic
import Mathlib.Data.List.Induction
import Mathlib.Tactic.Linarith
/-!
# Byte strings

Fixed-width arrays, big-endian integers and slices of byte lists. A fixed-width
array carries its length, so a value of the wrong width cannot be built.
`slice` of a concatenation is the part it falls in (`slice_left`,
`slice_right`), which is how a record laid out field by field is read back.
-/

namespace ObjLog.Lib

variable {l : Bytes}

/-- A byte string. -/
abbrev Bytes := List UInt8

/-- An array of `n` bytes. -/
structure Arr (n : Nat) where
  bytes : Bytes
  width : bytes.length = n
deriving DecidableEq

namespace Arr

variable {n : Nat}

/-- The all-zero array. -/
def zero (n : Nat) : Arr n := ⟨List.replicate n 0, List.length_replicate⟩

/-- Go's `copy(dst[:], src)` into a zeroed array. -/
def ofBytes (n : Nat) (src : Bytes) : Arr n :=
  ⟨src.take n ++ List.replicate (n - src.length) 0, by simp; omega⟩

@[simp] theorem length_bytes (a : Arr n) : a.bytes.length = n := a.width

@[ext] theorem ext {a b : Arr n} (h : a.bytes = b.bytes) : a = b := by
  cases a; cases b; simp_all

@[simp] theorem ofBytes_bytes (a : Arr n) : ofBytes n a.bytes = a := by
  ext1
  simp [ofBytes, List.take_of_length_le]

theorem bytes_ofBytes {src : Bytes} (h : src.length = n) : (ofBytes n src).bytes = src := by
  simp [ofBytes, h, List.take_of_length_le (Nat.le_of_eq h)]

end Arr

theorem mem_concat {α : Type} {l : List α} {a x : α} : x ∈ l ++ [a] ↔ x ∈ l ∨ x = a := by simp

/-! ## Zero padding -/

def zeros (n : Nat) : Bytes := List.replicate n 0

def allZero (l : Bytes) : Bool := l.all (· == 0)

@[simp] theorem length_zeros (n : Nat) : (zeros n).length = n := List.length_replicate

@[simp] theorem allZero_zeros (n : Nat) : allZero (zeros n) = true := by
  simp [allZero, zeros]

theorem zeros_of_allZero {n : Nat} (h : allZero l = true) (hn : l.length = n) : zeros n = l := by
  refine (List.eq_replicate_iff.2 ⟨hn, fun b hb => ?_⟩).symm
  simpa using List.all_eq_true.1 h b hb

/-! ## Big-endian integers -/

/-- The `k` low bytes of `n`, most significant first. -/
def beBytes : Nat → Nat → Bytes
  | 0, _ => []
  | k + 1, n => beBytes k (n / 256) ++ [UInt8.ofNat (n % 256)]

/-- The number a byte string spells, most significant byte first. -/
def beNat (l : Bytes) : Nat := l.foldl (fun acc b => acc * 256 + b.toNat) 0

@[simp] theorem length_beBytes (k n : Nat) : (beBytes k n).length = k := by
  induction k generalizing n with
  | zero => rfl
  | succ k ih => simp [beBytes, ih]

theorem beNat_concat (l : Bytes) (b : UInt8) : beNat (l ++ [b]) = beNat l * 256 + b.toNat := by
  simp [beNat]

theorem beNat_beBytes (k n : Nat) (h : n < 256 ^ k) : beNat (beBytes k n) = n := by
  induction k generalizing n with
  | zero => simp [beBytes, beNat] at h ⊢; omega
  | succ k ih =>
    have hdiv : n / 256 < 256 ^ k := Nat.div_lt_of_lt_mul (by rw [Nat.pow_succ] at h; omega)
    rw [beBytes, beNat_concat, ih _ hdiv, UInt8.toNat_ofNat']
    omega

theorem beNat_lt (l : Bytes) : beNat l < 256 ^ l.length := by
  induction l using List.reverseRecOn with
  | nil => simp [beNat]
  | append_singleton l b ih =>
    have hb := b.toNat_lt
    rw [beNat_concat, List.length_append, List.length_singleton, Nat.pow_succ]
    omega

/-- A byte string is the bytes of the number it spells. -/
theorem beBytes_beNat (l : Bytes) : beBytes l.length (beNat l) = l := by
  induction l using List.reverseRecOn with
  | nil => rfl
  | append_singleton l b ih =>
    have hb := b.toNat_lt
    have hdiv : (beNat l * 256 + b.toNat) / 256 = beNat l := by omega
    have hmod : (beNat l * 256 + b.toNat) % 256 = b.toNat := by omega
    rw [beNat_concat, List.length_append, List.length_singleton, beBytes, hdiv, hmod, ih, UInt8.ofNat_toNat]

def putUint8 (x : UInt8) : Bytes := [x]
def putUint16 (x : UInt16) : Bytes := beBytes 2 x.toNat
def putUint32 (x : UInt32) : Bytes := beBytes 4 x.toNat
def putUint64 (x : UInt64) : Bytes := beBytes 8 x.toNat
/-- `binary.BigEndian.PutUint64(dst, uint64(value))` on a signed value. -/
def putInt64 (x : Int64) : Bytes := putUint64 x.toUInt64

def uint8 (l : Bytes) : UInt8 := l.headD 0
def uint16 (l : Bytes) : UInt16 := UInt16.ofNat (beNat l)
def uint32 (l : Bytes) : UInt32 := UInt32.ofNat (beNat l)
def uint64 (l : Bytes) : UInt64 := UInt64.ofNat (beNat l)
/-- `int64(binary.BigEndian.Uint64(src))`. -/
def int64 (l : Bytes) : Int64 := (uint64 l).toInt64

@[simp] theorem length_putUint8 (x : UInt8) : (putUint8 x).length = 1 := by simp [putUint8]
@[simp] theorem length_putUint16 (x : UInt16) : (putUint16 x).length = 2 := length_beBytes _ _
@[simp] theorem length_putUint32 (x : UInt32) : (putUint32 x).length = 4 := length_beBytes _ _
@[simp] theorem length_putUint64 (x : UInt64) : (putUint64 x).length = 8 := length_beBytes _ _
@[simp] theorem length_putInt64 (x : Int64) : (putInt64 x).length = 8 := length_beBytes _ _

@[simp] theorem uint8_put (x : UInt8) : uint8 (putUint8 x) = x := rfl

@[simp] theorem uint16_put (x : UInt16) : uint16 (putUint16 x) = x := by
  rw [uint16, putUint16, beNat_beBytes _ _ (by simpa using x.toNat_lt), UInt16.ofNat_toNat]

@[simp] theorem uint32_put (x : UInt32) : uint32 (putUint32 x) = x := by
  rw [uint32, putUint32, beNat_beBytes _ _ (by simpa using x.toNat_lt), UInt32.ofNat_toNat]

@[simp] theorem uint64_put (x : UInt64) : uint64 (putUint64 x) = x := by
  rw [uint64, putUint64, beNat_beBytes _ _ (by simpa using x.toNat_lt), UInt64.ofNat_toNat]

@[simp] theorem int64_put (x : Int64) : int64 (putInt64 x) = x := by
  rw [int64, putInt64, uint64_put, Int64.toInt64_toUInt64]

/-! Reading a field of the right width and writing it back changes nothing. -/

theorem put_uint8 (h : l.length = 1) : putUint8 (uint8 l) = l := by
  obtain ⟨b, rfl⟩ := List.length_eq_one_iff.1 h
  rfl

theorem put_uint16 (h : l.length = 2) : putUint16 (uint16 l) = l := by
  have hlt := beNat_lt l
  rw [h] at hlt
  rw [putUint16, uint16, UInt16.toNat_ofNat_of_lt' (by simpa using hlt), ← h]
  exact beBytes_beNat l

theorem put_uint32 (h : l.length = 4) : putUint32 (uint32 l) = l := by
  have hlt := beNat_lt l
  rw [h] at hlt
  rw [putUint32, uint32, UInt32.toNat_ofNat_of_lt' (by simpa using hlt), ← h]
  exact beBytes_beNat l

theorem put_uint64 (h : l.length = 8) : putUint64 (uint64 l) = l := by
  have hlt := beNat_lt l
  rw [h] at hlt
  rw [putUint64, uint64, UInt64.toNat_ofNat_of_lt' (by simpa using hlt), ← h]
  exact beBytes_beNat l

theorem put_int64 (h : l.length = 8) : putInt64 (int64 l) = l := by
  rw [putInt64, int64, UInt64.toUInt64_toInt64, put_uint64 h]

/-! ## Slices -/

/-- Go's `src[a:b]`. -/
def slice (src : Bytes) (a b : Nat) : Bytes := (src.drop a).take (b - a)

/-- A slice past the first part of a concatenation is a slice of the rest. -/
theorem slice_right (x y : Bytes) (a b : Nat) (h : x.length ≤ a) :
    slice (x ++ y) a b = slice y (a - x.length) (b - x.length) := by
  rw [slice, slice, List.drop_append, List.drop_eq_nil_of_le h, List.nil_append]
  congr 1
  omega

/-- A slice of exactly the first part. -/
theorem slice_left (x y : Bytes) (b : Nat) (h : x.length = b) : slice (x ++ y) 0 b = x := by
  subst h
  simp [slice]

/-- A slice of a concatenation that starts where the first part ends. -/
theorem slice_at (x y z : Bytes) (a b : Nat) (ha : x.length = a) (hb : a + y.length = b) :
    slice (x ++ (y ++ z)) a b = y := by
  subst ha
  subst hb
  rw [slice_right _ _ _ _ (Nat.le_refl _), Nat.sub_self, Nat.add_sub_cancel_left]
  exact slice_left _ _ _ rfl

theorem length_slice (x : Bytes) (a b : Nat) : (slice x a b).length = min (b - a) (x.length - a) := by
  simp [slice]

theorem length_slice_of_le (x : Bytes) {a b n : Nat} (hn : a + n = b) (hb : b ≤ x.length) : (slice x a b).length = n := by
  rw [length_slice]
  omega

theorem slice_empty (x : Bytes) {a b : Nat} (h : b ≤ a) : slice x a b = [] := by
  rw [slice, Nat.sub_eq_zero_of_le h, List.take_zero]

/-- Two slices that meet are one. -/
theorem slice_append (x : Bytes) {a b c : Nat} (hab : a ≤ b) (hbc : b ≤ c) : slice x a b ++ slice x b c = slice x a c := by
  rw [slice, slice, slice, show c - a = (b - a) + (c - b) by omega, List.take_add, List.drop_drop,
    Nat.add_sub_cancel' hab]

/-- A slice that is everything. -/
theorem slice_self (x : Bytes) (b : Nat) (h : x.length = b) : slice x 0 b = x := by
  subst h
  simp [slice]

/-! A field that is read and written back is the slice it was read from. -/

section Fields
variable (x : Bytes) {a b n : Nat}

theorem putUint8_slice (hw : a + 1 = b) (hb : b ≤ x.length) : putUint8 (uint8 (slice x a b)) = slice x a b :=
  put_uint8 (length_slice_of_le x hw hb)

theorem putUint16_slice (hw : a + 2 = b) (hb : b ≤ x.length) : putUint16 (uint16 (slice x a b)) = slice x a b :=
  put_uint16 (length_slice_of_le x hw hb)

theorem putUint32_slice (hw : a + 4 = b) (hb : b ≤ x.length) : putUint32 (uint32 (slice x a b)) = slice x a b :=
  put_uint32 (length_slice_of_le x hw hb)

theorem putUint64_slice (hw : a + 8 = b) (hb : b ≤ x.length) : putUint64 (uint64 (slice x a b)) = slice x a b :=
  put_uint64 (length_slice_of_le x hw hb)

theorem putInt64_slice (hw : a + 8 = b) (hb : b ≤ x.length) : putInt64 (int64 (slice x a b)) = slice x a b :=
  put_int64 (length_slice_of_le x hw hb)

theorem ofBytes_slice (hw : a + n = b) (hb : b ≤ x.length) : (Arr.ofBytes n (slice x a b)).bytes = slice x a b :=
  Arr.bytes_ofBytes (length_slice_of_le x hw hb)

theorem zeros_slice (h : allZero (slice x a b) = true) (hw : a + n = b) (hb : b ≤ x.length) : zeros n = slice x a b :=
  zeros_of_allZero h (length_slice_of_le x hw hb)

end Fields

end ObjLog.Lib
