import ObjLog.Lib.Bytes
/-!
# Formatting

The verbs of Go's `fmt` and `hex` that object keys are built with.
-/

namespace ObjLog.Lib

variable {w n : Nat} {c : Char} {b : Bytes}

/-- `%0wd` of a natural number. -/
def padDec (w n : Nat) : String := String.ofList (List.leftpad w '0' (Nat.toDigits 10 n))

theorem toList_padDec (w n : Nat) :
    (padDec w n).toList = List.replicate (w - (Nat.toDigits 10 n).length) '0' ++ Nat.toDigits 10 n := by
  rw [padDec, String.toList_ofList]
  rfl

/-- Numbers that fit are padded to exactly the width. -/
theorem length_padDec (hw : 0 < w) (h : n < 10 ^ w) : (padDec w n).toList.length = w := by
  have hle := (Nat.length_toDigits_le_iff (by decide) hw).2 h
  rw [toList_padDec, List.length_append, List.length_replicate]
  omega

/-- Leading zeros do not change the value read back. -/
theorem ofDigitChars_padDec (w n : Nat) : Nat.ofDigitChars 10 (padDec w n).toList 0 = n := by
  have hzeros : ∀ k, Nat.ofDigitChars 10 (List.replicate k '0') 0 = 0 := by
    intro k
    induction k with
    | zero => rfl
    | succ k ih =>
      rw [List.replicate_succ, Nat.ofDigitChars_cons]
      exact ih
  rw [toList_padDec, Nat.ofDigitChars_append, hzeros, Nat.ofDigitChars_ten_toDigits]

theorem padDec_inj {m : Nat} : padDec w m = padDec w n ↔ m = n := by
  refine ⟨fun h => ?_, fun h => h ▸ rfl⟩
  rw [← ofDigitChars_padDec w m, h, ofDigitChars_padDec]

/-- A padded number at the front of a text can be read off. -/
theorem padDec_append_inj {m : Nat} {s t : String} (hw : 0 < w) (hm : m < 10 ^ w) (hn : n < 10 ^ w)
    (h : padDec w m ++ s = padDec w n ++ t) : m = n := by
  have hlist := congrArg String.toList h
  rw [String.toList_append, String.toList_append] at hlist
  have hpad := List.append_inj_left hlist (by rw [length_padDec hw hm, length_padDec hw hn])
  exact padDec_inj.1 (String.toList_inj.1 hpad)

/-- `hex.EncodeToString`. -/
def hexString (b : Bytes) : String :=
  String.ofList (b.flatMap fun c => [Nat.digitChar (c.toNat / 16), Nat.digitChar (c.toNat % 16)])

/-- `strings.Trim(s, "/")`. -/
def trimSlashes (s : String) : String :=
  String.ofList ((s.toList.dropWhile (· == '/')).reverse.dropWhile (· == '/')).reverse

/-- `strings.Split(s, "/")`. -/
def splitSlashes : List Char → List (List Char)
  | [] => [[]]
  | '/' :: cs => [] :: splitSlashes cs
  | c :: cs =>
    match splitSlashes cs with
    | [] => [[c]]
    | first :: rest => (c :: first) :: rest

def utf8 (s : String) : Bytes := s.toUTF8.toList

/-! ## Reading formatted text back -/

/-- `len` of a string, in bytes. -/
def byteLen (cs : List Char) : Nat := (cs.map Char.utf8Size).sum

/-- `strconv.ParseUint(s, 10, bits)`. -/
def parseUint (bits : Nat) (cs : List Char) : Option Nat :=
  if cs = [] ∨ ¬ cs.all Char.isDigit ∨ 2 ^ bits ≤ Nat.ofDigitChars 10 cs 0 then none
  else some (Nat.ofDigitChars 10 cs 0)

/-- The bytes of a string, each as the character of its code: what indexing a Go string sees. -/
def byteChars (s : String) : List Char := (utf8 s).map Char.ofUInt8

def hexValue (c : Char) : Option Nat :=
  if '0' ≤ c ∧ c ≤ '9' then some (c.toNat - '0'.toNat)
  else if 'a' ≤ c ∧ c ≤ 'f' then some (c.toNat - 'a'.toNat + 10)
  else if 'A' ≤ c ∧ c ≤ 'F' then some (c.toNat - 'A'.toNat + 10)
  else none

/-- `hex.DecodeString`: pairs of hex digits in either case. -/
def hexDecode : List Char → Option Bytes
  | [] => some []
  | [_] => none
  | hi :: lo :: cs => do
    let h ← hexValue hi
    let l ← hexValue lo
    let rest ← hexDecode cs
    return UInt8.ofNat (16 * h + l) :: rest

def isLowerHex (c : Char) : Bool := ('0' ≤ c ∧ c ≤ '9') ∨ ('a' ≤ c ∧ c ≤ 'f')

theorem utf8Size_of_lowerHex (h : isLowerHex c = true) : c.utf8Size = 1 := by
  simp only [isLowerHex, Bool.decide_or, Bool.or_eq_true, decide_eq_true_eq, Char.le_def] at h
  have h9 : c.val ≤ 102 := by
    rcases h with ⟨_, h⟩ | ⟨_, h⟩
    · exact UInt32.le_trans h (by decide)
    · exact h
  rw [Char.utf8Size, if_pos (UInt32.le_trans h9 (by decide))]

theorem isLowerHex_of_isDigit (h : c.isDigit = true) : isLowerHex c = true := by
  simp only [Char.isDigit, Bool.and_eq_true, decide_eq_true_eq] at h
  simp only [isLowerHex, Char.le_def, Bool.decide_or, Bool.or_eq_true, decide_eq_true_eq]
  exact .inl h

theorem toLower_of_lowerHex (h : isLowerHex c = true) : c.toLower = c := by
  simp only [isLowerHex, Bool.decide_or, Bool.or_eq_true, decide_eq_true_eq, Char.le_def, UInt32.le_iff_toNat_le] at h
  unfold Char.toLower
  rw [dif_neg]
  rintro ⟨hge, hle⟩
  rw [ge_iff_le, UInt32.le_iff_toNat_le] at hge
  rw [UInt32.le_iff_toNat_le] at hle
  rcases h with ⟨-, h⟩ | ⟨h, -⟩
  · exact absurd (Nat.le_trans hge h) (by decide)
  · exact absurd (Nat.le_trans h hle) (by decide)

theorem byteLen_of_lowerHex {cs : List Char} (h : ∀ c ∈ cs, isLowerHex c = true) : byteLen cs = cs.length := by
  induction cs with
  | nil => rfl
  | cons c cs ih =>
    have hc := utf8Size_of_lowerHex (h c List.mem_cons_self)
    have htail := ih fun x hx => h x (List.mem_cons_of_mem _ hx)
    simp only [byteLen, List.map_cons, List.sum_cons, List.length_cons] at htail ⊢
    omega

theorem isDigit_of_mem_padDec (h : c ∈ (padDec w n).toList) : c.isDigit = true := by
  rw [toList_padDec, List.mem_append] at h
  rcases h with h | h
  · rw [(List.mem_replicate.1 h).2]
    rfl
  · exact Nat.isDigit_of_mem_toDigits (by decide) (by decide) h

theorem parseUint_padDec {bits : Nat} (h : n < 2 ^ bits) : parseUint bits (padDec w n).toList = some n := by
  have hne : (padDec w n).toList ≠ [] := by
    rw [toList_padDec]
    exact List.append_ne_nil_of_right_ne_nil _ Nat.toDigits_ne_nil
  have hall : (padDec w n).toList.all Char.isDigit = true := List.all_eq_true.2 fun _ hc => isDigit_of_mem_padDec hc
  rw [parseUint, ofDigitChars_padDec, if_neg]
  simp only [hne, hall, not_true_eq_false, false_or, not_le]
  exact h

theorem toList_hexString (b : Bytes) : (hexString b).toList =
    b.flatMap fun c => [Nat.digitChar (c.toNat / 16), Nat.digitChar (c.toNat % 16)] := by
  rw [hexString, String.toList_ofList]

theorem length_hexString (b : Bytes) : (hexString b).toList.length = 2 * b.length := by
  rw [toList_hexString]
  induction b with
  | nil => rfl
  | cons c b ih =>
    simp only [List.flatMap_cons, List.length_append, List.length_cons, List.length_nil] at ih ⊢
    omega

theorem isLowerHex_digitChar (h : n < 16) : isLowerHex (Nat.digitChar n) = true := by
  revert n
  decide

theorem isLowerHex_of_mem_hexString (h : c ∈ (hexString b).toList) : isLowerHex c = true := by
  rw [toList_hexString, List.mem_flatMap] at h
  obtain ⟨x, _, hx⟩ := h
  have hlt := x.toNat_lt
  simp only [List.mem_cons, List.not_mem_nil, or_false] at hx
  rcases hx with rfl | rfl
  · exact isLowerHex_digitChar (by omega)
  · exact isLowerHex_digitChar (Nat.mod_lt _ (by decide))

theorem hexValue_digitChar (h : n < 16) : hexValue (Nat.digitChar n) = some n := by
  revert n
  decide

theorem hexDecode_hexString (b : Bytes) : hexDecode (hexString b).toList = some b := by
  rw [toList_hexString]
  induction b with
  | nil => rfl
  | cons c b ih =>
    have hlt := c.toNat_lt
    have hval : 16 * (c.toNat / 16) + c.toNat % 16 = c.toNat := Nat.div_add_mod _ _
    rw [List.flatMap_cons, List.cons_append, List.cons_append, List.nil_append, hexDecode,
      hexValue_digitChar (by omega), hexValue_digitChar (Nat.mod_lt _ (by decide)), ih]
    change some (UInt8.ofNat (16 * (c.toNat / 16) + c.toNat % 16) :: b) = _
    rw [hval, UInt8.ofNat_toNat]

theorem hexString_inj {a : Bytes} : hexString a = hexString b ↔ a = b := by
  refine ⟨fun h => ?_, fun h => h ▸ rfl⟩
  have hdecode := hexDecode_hexString a
  rw [h, hexDecode_hexString] at hdecode
  exact (Option.some.inj hdecode).symm

/-- A lowercase hex digit is what its value is formatted as. -/
theorem digitChar_hexValue (h : hexValue c = some n) (hlower : c.toLower = c) : n < 16 ∧ Nat.digitChar n = c := by
  have hall : ∀ k < 128, hexValue (Char.ofNat k) = none ∨ (Char.ofNat k).toLower ≠ Char.ofNat k ∨
      (hexValue (Char.ofNat k)).getD 0 < 16 ∧ Nat.digitChar ((hexValue (Char.ofNat k)).getD 0) = Char.ofNat k := by
    decide
  have hlt : c.toNat < 128 := by
    by_contra hge
    have hnone : hexValue c = none := by
      simp only [hexValue, Char.le_def, UInt32.le_iff_toNat_le]
      change ¬c.val.toNat < 128 at hge
      rw [if_neg, if_neg, if_neg] <;> exact fun hc => absurd (Nat.lt_of_le_of_lt hc.2 (by decide)) hge
    rw [hnone] at h
    cases h
  have hc := hall c.toNat hlt
  rw [Char.ofNat_toNat, h] at hc
  exact (hc.resolve_left (by simp)).resolve_left (not_not.2 hlower)

theorem hexString_hexDecode {cs : List Char} (h : hexDecode cs = some b) (hlower : cs.map Char.toLower = cs) :
    (hexString b).toList = cs := by
  rw [toList_hexString]
  induction cs using hexDecode.induct generalizing b with
  | case1 =>
    cases h
    rfl
  | case2 c => cases h
  | case3 hi lo cs ih =>
    simp only [hexDecode, Option.bind_eq_bind, Option.bind_eq_some_iff, Option.pure_def, Option.some.injEq] at h
    obtain ⟨x, hx, y, hy, rest, hrest, rfl⟩ := h
    simp only [List.map_cons, List.cons.injEq] at hlower
    obtain ⟨hhi, hlo, htail⟩ := hlower
    obtain ⟨hx16, hxc⟩ := digitChar_hexValue hx hhi
    obtain ⟨hy16, hyc⟩ := digitChar_hexValue hy hlo
    have hval : (UInt8.ofNat (16 * x + y)).toNat = 16 * x + y := UInt8.toNat_ofNat_of_lt' (by simp only [UInt8.size]; omega)
    rw [List.flatMap_cons, ih hrest htail, hval, Nat.mul_add_div (by decide), Nat.div_eq_of_lt hy16, Nat.mul_add_mod,
      Nat.mod_eq_of_lt hy16, Nat.add_zero, hxc, hyc]
    rfl

/-! ## Trimming twice -/

theorem dropWhile_eq_self {α : Type} {p : α → Bool} {l : List α} (h : ∀ x ∈ l.head?, p x = false) :
    l.dropWhile p = l := by
  cases l with
  | nil => rfl
  | cons x l => rw [List.dropWhile_cons, h x rfl, if_neg (by decide)]

theorem head?_dropWhile {α : Type} (p : α → Bool) (l : List α) : ∀ x ∈ (l.dropWhile p).head?, p x = false := by
  induction l with
  | nil => intro x hx; cases hx
  | cons y l ih =>
    rw [List.dropWhile_cons]
    split
    · exact ih
    · rintro x hx
      obtain rfl := Option.some.inj hx
      simpa using ‹¬ p y = true›

theorem trimSlashes_idem (s : String) : trimSlashes (trimSlashes s) = trimSlashes s := by
  simp only [trimSlashes, String.toList_ofList]
  generalize ht : s.toList.dropWhile (· == '/') = t
  have hhead := head?_dropWhile (· == '/') s.toList
  rw [ht] at hhead
  -- what is left after trimming the end still starts where `t` starts
  have hstart : ∀ x ∈ (t.reverse.dropWhile (· == '/')).reverse.head?, (x == '/') = false := by
    intro x hx
    obtain ⟨l, hl⟩ := List.dropWhile_suffix (l := t.reverse) (· == '/')
    have hpre : (t.reverse.dropWhile (· == '/')).reverse ++ l.reverse = t := by
      rw [← List.reverse_append, hl, List.reverse_reverse]
    refine hhead x ?_
    rw [← hpre, List.head?_append, Option.mem_def.1 hx]
    rfl
  rw [dropWhile_eq_self hstart, List.reverse_reverse, dropWhile_eq_self (head?_dropWhile _ _)]

end ObjLog.Lib
