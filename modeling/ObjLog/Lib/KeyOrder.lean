import Mathlib.Data.Char
import Mathlib.Data.List.Lex
import Mathlib.Tactic.Ring
import ObjLog.Lib.Text
/-!
# The byte order of formatted text

Go compares strings byte by byte. Zero-padded decimals of one width, and the hex
digits of byte strings, sort as the numbers and the byte strings do.
-/

namespace ObjLog.Lib

variable {cs : List Char} {w m n : Nat} {s t : String}

/-! ## Lexicographic order -/

section Lex

variable {α β : Type} [LT α] [LT β]

theorem append_lt_append_iff {a b c d : List α} (h : a.length = b.length) :
    a ++ c < b ++ d ↔ a < b ∨ (a = b ∧ c < d) := by
  induction a generalizing b with
  | nil =>
    obtain rfl := List.length_eq_zero_iff.1 h.symm
    simp
  | cons x a ih =>
    cases b with
    | nil => cases h
    | cons y b =>
      rw [List.cons_append, List.cons_append, List.cons_lt_cons_iff, List.cons_lt_cons_iff, ih (Nat.succ.inj h),
        List.cons.injEq]
      tauto

theorem append_lt_append_left_iff {a c d : List α} (hirrefl : ∀ x : α, ¬x < x) : a ++ c < a ++ d ↔ c < d := by
  induction a with
  | nil => rfl
  | cons x a ih => simp [List.cons_lt_cons_iff, hirrefl, ih]

/-- A list sorts before what extends it. -/
theorem lt_append {a b : List α} (h : b ≠ []) : a < a ++ b := by
  induction a with
  | nil =>
    obtain ⟨x, b, rfl⟩ := List.exists_cons_of_ne_nil h
    exact List.nil_lt_cons x b
  | cons x a ih => exact List.cons_lt_cons_iff.2 (.inr ⟨rfl, ih⟩)

theorem map_lt_map_iff {f : α → β} {a b : List α} (hlt : ∀ x ∈ a, ∀ y ∈ b, f x < f y ↔ x < y)
    (heq : ∀ x ∈ a, ∀ y ∈ b, f x = f y ↔ x = y) : a.map f < b.map f ↔ a < b := by
  induction a generalizing b with
  | nil => cases b <;> simp
  | cons x a ih =>
    cases b with
    | nil => simp
    | cons y b =>
      have htail := ih (b := b) (fun x hx y hy => hlt x (List.mem_cons_of_mem _ hx) y (List.mem_cons_of_mem _ hy))
        fun x hx y hy => heq x (List.mem_cons_of_mem _ hx) y (List.mem_cons_of_mem _ hy)
      rw [List.map_cons, List.map_cons, List.cons_lt_cons_iff, List.cons_lt_cons_iff, htail,
        hlt x List.mem_cons_self y List.mem_cons_self, heq x List.mem_cons_self y List.mem_cons_self]

end Lex

/-! ## Decimals -/

theorem toNat_digit {c : Char} (h : c.isDigit = true) : '0'.toNat ≤ c.toNat ∧ c.toNat < '0'.toNat + 10 := by
  simp only [Char.isDigit, Bool.and_eq_true, decide_eq_true_eq, UInt32.le_iff_toNat_le] at h
  exact ⟨h.1, Nat.lt_succ_of_le h.2⟩

theorem ofDigitChars_eq (cs : List Char) (acc : Nat) :
    Nat.ofDigitChars 10 cs acc = acc * 10 ^ cs.length + Nat.ofDigitChars 10 cs 0 := by
  induction cs generalizing acc with
  | nil => simp
  | cons c cs ih =>
    rw [Nat.ofDigitChars_cons, ih, Nat.ofDigitChars_cons, ih (10 * 0 + _), List.length_cons, Nat.pow_succ]
    ring

theorem ofDigitChars_lt (h : ∀ c ∈ cs, c.isDigit = true) : Nat.ofDigitChars 10 cs 0 < 10 ^ cs.length := by
  induction cs with
  | nil => simp
  | cons c cs ih =>
    obtain ⟨hc, hcs⟩ := List.forall_mem_cons.1 h
    have hdigit := toNat_digit hc
    rw [Nat.ofDigitChars_cons, ofDigitChars_eq, List.length_cons, Nat.pow_succ]
    have htail := ih hcs
    have hmul : (10 * 0 + (c.toNat - '0'.toNat)) * 10 ^ cs.length ≤ 9 * 10 ^ cs.length :=
      Nat.mul_le_mul_right _ (by omega)
    omega

/-- Decimals of one width sort as their values. -/
theorem digits_lt_iff {ds : List Char} (hlen : cs.length = ds.length) (hcs : ∀ c ∈ cs, c.isDigit = true)
    (hds : ∀ c ∈ ds, c.isDigit = true) : cs < ds ↔ Nat.ofDigitChars 10 cs 0 < Nat.ofDigitChars 10 ds 0 := by
  induction cs generalizing ds with
  | nil =>
    obtain rfl := List.length_eq_zero_iff.1 hlen.symm
    simp
  | cons c cs ih =>
    cases ds with
    | nil => cases hlen
    | cons d ds =>
      have hlen' := Nat.succ.inj hlen
      obtain ⟨hc, hcs⟩ := List.forall_mem_cons.1 hcs
      obtain ⟨hd, hds⟩ := List.forall_mem_cons.1 hds
      have hcdigit := toNat_digit hc
      have hddigit := toNat_digit hd
      have hcv := ofDigitChars_lt hcs
      have hdv := ofDigitChars_lt hds
      rw [← hlen'] at hdv
      rw [List.cons_lt_cons_iff, ih hlen' hcs hds, Nat.ofDigitChars_cons, Nat.ofDigitChars_cons,
        ofDigitChars_eq cs (10 * 0 + _), ofDigitChars_eq ds (10 * 0 + _), ← hlen', Char.lt_def, UInt32.lt_iff_toNat_lt, ← Char.toNat_inj]
      change c.toNat < d.toNat ∨ _ ↔ _
      -- the first digits decide unless they are equal
      rcases Nat.lt_trichotomy c.toNat d.toNat with hlt | heq | hgt
      · have hmul : (10 * 0 + (c.toNat - '0'.toNat) + 1) * 10 ^ cs.length ≤
            (10 * 0 + (d.toNat - '0'.toNat)) * 10 ^ cs.length := Nat.mul_le_mul_right _ (by omega)
        rw [Nat.add_mul, Nat.one_mul] at hmul
        exact iff_of_true (.inl hlt) (by omega)
      · rw [heq]
        simp
      · have hmul : (10 * 0 + (d.toNat - '0'.toNat) + 1) * 10 ^ cs.length ≤
            (10 * 0 + (c.toNat - '0'.toNat)) * 10 ^ cs.length := Nat.mul_le_mul_right _ (by omega)
        rw [Nat.add_mul, Nat.one_mul] at hmul
        exact iff_of_false (by omega) (by omega)

theorem padDec_lt_iff (hw : 0 < w) (hm : m < 10 ^ w) (hn : n < 10 ^ w) :
    (padDec w m).toList < (padDec w n).toList ↔ m < n := by
  rw [digits_lt_iff (by rw [length_padDec hw hm, length_padDec hw hn]) (fun _ => isDigit_of_mem_padDec)
    fun _ => isDigit_of_mem_padDec, ofDigitChars_padDec, ofDigitChars_padDec]

theorem eq_of_ofDigitChars {ds : List Char} (hlen : cs.length = ds.length) (hcs : ∀ c ∈ cs, c.isDigit = true)
    (hds : ∀ c ∈ ds, c.isDigit = true) (h : Nat.ofDigitChars 10 cs 0 = Nat.ofDigitChars 10 ds 0) : cs = ds := by
  rcases lt_trichotomy cs ds with hlt | heq | hgt
  · exact absurd ((digits_lt_iff hlen hcs hds).1 hlt) (by omega)
  · exact heq
  · exact absurd ((digits_lt_iff hlen.symm hds hcs).1 hgt) (by omega)

/-- Digits of the full width are what the number is formatted as. -/
theorem padDec_ofDigitChars (hw : 0 < w) (hlen : cs.length = w)
    (h : ∀ c ∈ cs, c.isDigit = true) : (padDec w (Nat.ofDigitChars 10 cs 0)).toList = cs := by
  have hlt := ofDigitChars_lt h
  rw [hlen] at hlt
  exact eq_of_ofDigitChars (by rw [length_padDec hw hlt, hlen]) (fun _ => isDigit_of_mem_padDec) h
    (ofDigitChars_padDec _ _)

/-- What is parsed from a decimal of full width formats to it again. -/
theorem padDec_parseUint {bits : Nat} (h : parseUint bits cs = some n) (hw : 0 < w)
    (hlen : byteLen cs = w) : n < 2 ^ bits ∧ cs = (padDec w n).toList := by
  unfold parseUint at h
  split at h
  · cases h
  · rename_i hbad
    simp only [not_or, not_not, not_le, List.all_eq_true] at hbad
    obtain ⟨-, hdigits, hlt⟩ := hbad
    obtain rfl := Option.some.inj h
    rw [byteLen_of_lowerHex fun c hc => isLowerHex_of_isDigit (hdigits c hc)] at hlen
    exact ⟨hlt, (padDec_ofDigitChars hw hlen hdigits).symm⟩

/-! ## Hex -/

theorem digitChar_lt_iff (hm : m < 16) (hn : n < 16) : Nat.digitChar m < Nat.digitChar n ↔ m < n :=
  (by decide : ∀ m < 16, ∀ n < 16, Nat.digitChar m < Nat.digitChar n ↔ m < n) m hm n hn

theorem digitChar_inj (hm : m < 16) (hn : n < 16) : Nat.digitChar m = Nat.digitChar n ↔ m = n :=
  (by decide : ∀ m < 16, ∀ n < 16, Nat.digitChar m = Nat.digitChar n ↔ m = n) m hm n hn

/-- Hex digits sort as the bytes they stand for. -/
theorem hexString_lt_iff {a b : Bytes} : (hexString a).toList < (hexString b).toList ↔ a < b := by
  rw [toList_hexString, toList_hexString]
  induction a generalizing b with
  | nil => cases b <;> simp
  | cons x a ih =>
    cases b with
    | nil => simp
    | cons y b =>
      have hx := x.toNat_lt
      have hy := y.toNat_lt
      simp only [List.flatMap_cons, List.cons_append, List.nil_append, List.cons_lt_cons_iff, ih,
        digitChar_lt_iff (show x.toNat / 16 < 16 by omega) (show y.toNat / 16 < 16 by omega),
        digitChar_inj (show x.toNat / 16 < 16 by omega) (show y.toNat / 16 < 16 by omega),
        digitChar_lt_iff (Nat.mod_lt x.toNat (by decide)) (Nat.mod_lt y.toNat (by decide)),
        digitChar_inj (Nat.mod_lt x.toNat (by decide)) (Nat.mod_lt y.toNat (by decide)),
        UInt8.lt_iff_toNat_lt, ← UInt8.toNat_inj]
      have hlt : x.toNat < y.toNat ↔ x.toNat / 16 < y.toNat / 16 ∨
          (x.toNat / 16 = y.toNat / 16 ∧ x.toNat % 16 < y.toNat % 16) := by omega
      have heq : x.toNat = y.toNat ↔ x.toNat / 16 = y.toNat / 16 ∧ x.toNat % 16 = y.toNat % 16 := by omega
      rw [hlt, heq]
      tauto

/-- An even number of lowercase hex digits stands for bytes. -/
theorem exists_hexString (h : ∀ c ∈ cs, isLowerHex c = true) (hlen : cs.length = 2 * n) :
    ∃ b : Bytes, b.length = n ∧ (hexString b).toList = cs := by
  have hvalue : ∀ c, isLowerHex c = true → ∃ v, hexValue c = some v := by
    intro c hc
    simp only [isLowerHex, Bool.decide_or, Bool.or_eq_true, decide_eq_true_eq] at hc
    unfold hexValue
    rcases hc with hc | hc
    · exact ⟨_, if_pos hc⟩
    · rw [if_pos hc]
      split <;> exact ⟨_, rfl⟩
  have hdecode : ∃ b, hexDecode cs = some b ∧ b.length = n := by
    induction n generalizing cs with
    | zero =>
      obtain rfl := List.length_eq_zero_iff.1 hlen
      exact ⟨[], rfl, rfl⟩
    | succ n ih =>
      rcases cs with _ | ⟨hi, _ | ⟨lo, cs⟩⟩ <;> simp only [List.length_nil, List.length_cons] at hlen
      · omega
      · omega
      · obtain ⟨hhi, hlo, hcs⟩ : isLowerHex hi = true ∧ isLowerHex lo = true ∧ ∀ c ∈ cs, isLowerHex c = true := by
          simpa using h
        obtain ⟨x, hx⟩ := hvalue hi hhi
        obtain ⟨y, hy⟩ := hvalue lo hlo
        obtain ⟨b, hb, hblen⟩ := ih hcs (by omega)
        exact ⟨_, by rw [hexDecode, hx, hy, hb]; rfl, by rw [List.length_cons, hblen]⟩
  obtain ⟨b, hb, hblen⟩ := hdecode
  refine ⟨b, hblen, hexString_hexDecode hb ?_⟩
  conv_rhs => rw [← List.map_id cs]
  exact List.map_congr_left fun c hc => toLower_of_lowerHex (h c hc)

/-! ## UTF-8 -/

/-- Every character is one byte. -/
def Ascii (cs : List Char) : Prop := ∀ c ∈ cs, c.toNat < 128

instance (cs : List Char) : Decidable (Ascii cs) :=
  decidable_of_iff (cs.all fun c => decide (c.toNat < 128)) (by simp [Ascii])

theorem Ascii.append {a b : List Char} (ha : Ascii a) (hb : Ascii b) : Ascii (a ++ b) := fun c hc =>
  (List.mem_append.1 hc).elim (ha c) (hb c)

theorem Ascii.of_lowerHex (h : ∀ c ∈ cs, isLowerHex c = true) : Ascii cs := by
  intro c hc
  have hlow := h c hc
  simp only [isLowerHex, Bool.decide_or, Bool.or_eq_true, decide_eq_true_eq, Char.le_def, UInt32.le_iff_toNat_le] at hlow
  change c.val.toNat < 128
  rcases hlow with ⟨-, hle⟩ | ⟨-, hle⟩
  · exact Nat.lt_of_le_of_lt hle (by decide)
  · exact Nat.lt_of_le_of_lt hle (by decide)

theorem ascii_padDec (w n : Nat) : Ascii (padDec w n).toList :=
  .of_lowerHex fun _ hc => isLowerHex_of_isDigit (isDigit_of_mem_padDec hc)

theorem ascii_hexString (b : Bytes) : Ascii (hexString b).toList := .of_lowerHex fun _ => isLowerHex_of_mem_hexString

theorem toList_loop (b : ByteArray) (i : Nat) (r : List UInt8) :
    ByteArray.toList.loop b i r = r.reverse ++ b.data.toList.drop i := by
  fun_induction ByteArray.toList.loop b i r with
  | case1 i r h ih =>
    rw [ih, List.reverse_cons, List.append_assoc, List.singleton_append]
    congr 1
    have hlen : i < b.data.toList.length := h
    conv_rhs => rw [List.drop_eq_getElem_cons hlen]
    congr 1
    exact getElem!_pos b.data i h
  | case2 i r h =>
    rw [List.drop_eq_nil_of_le (by simpa using h), List.append_nil]

theorem utf8_eq (s : String) : utf8 s = s.toList.flatMap String.utf8EncodeChar := by
  have hdata : utf8 s = s.toByteArray.data.toList := by
    change s.toByteArray.toList = _
    rw [ByteArray.toList, toList_loop]
    rfl
  rw [hdata]
  conv_lhs => rw [← String.ofList_toList (s := s), String.toByteArray_ofList]
  exact List.toList_data_toByteArray

theorem utf8_append (s t : String) : utf8 (s ++ t) = utf8 s ++ utf8 t := by
  simp [utf8_eq]

theorem utf8_ascii (h : Ascii s.toList) : utf8 s = s.toList.map fun c => c.val.toUInt8 := by
  rw [utf8_eq]
  generalize s.toList = cs at h
  induction cs with
  | nil => rfl
  | cons c cs ih =>
    obtain ⟨hc, hcs⟩ := List.forall_mem_cons.1 h
    have hsize : c.utf8Size = 1 := by
      rw [Char.utf8Size, if_pos]
      exact UInt32.le_iff_toNat_le.2 (Nat.le_of_lt_succ hc)
    rw [List.flatMap_cons, ih hcs, String.utf8EncodeChar_eq_singleton hsize]
    rfl

theorem utf8_inj : utf8 s = utf8 t ↔ s = t := by
  refine ⟨fun h => ?_, fun h => h ▸ rfl⟩
  have hdata : ∀ u : String, u.toByteArray.data.toList = utf8 u := by
    intro u
    change _ = u.toByteArray.toList
    rw [ByteArray.toList, toList_loop]
    rfl
  rw [← String.toByteArray_inj]
  exact ByteArray.ext (Array.toList_inj.1 (by rw [hdata, hdata, h]))

theorem toNat_toUInt8 {c : Char} (h : c.toNat < 128) : c.val.toUInt8.toNat = c.toNat := by
  rw [UInt32.toNat_toUInt8]
  exact Nat.mod_eq_of_lt (Nat.lt_trans h (by decide))

theorem toNat_ofUInt8 (x : UInt8) : (Char.ofUInt8 x).toNat = x.toNat := UInt8.toNat_toUInt32 x

theorem byteChars_ascii (h : Ascii s.toList) : byteChars s = s.toList := by
  rw [byteChars, utf8_ascii h, List.map_map]
  conv_rhs => rw [← List.map_id s.toList]
  refine List.map_congr_left fun c hc => Char.toNat_inj.1 ?_
  exact (toNat_ofUInt8 _).trans (toNat_toUInt8 (h c hc))

theorem byteChars_inj (h : byteChars s = byteChars t) : s = t := by
  refine utf8_inj.1 (List.map_injective_iff.2 (fun x y hxy => ?_) h)
  rw [← UInt8.toNat_inj, ← toNat_ofUInt8, hxy, toNat_ofUInt8]

/-- Below a common start, ASCII text sorts by its characters. -/
theorem utf8_lt_iff {p : String} (hs : Ascii s.toList) (ht : Ascii t.toList) :
    utf8 (p ++ s) < utf8 (p ++ t) ↔ s.toList < t.toList := by
  rw [utf8_append, utf8_append, append_lt_append_left_iff (fun _ => UInt8.lt_irrefl _), utf8_ascii hs, utf8_ascii ht]
  refine map_lt_map_iff (fun x hx y hy => ?_) fun x hx y hy => ?_
  · rw [UInt8.lt_iff_toNat_lt, toNat_toUInt8 (hs x hx), toNat_toUInt8 (ht y hy), Char.lt_def, UInt32.lt_iff_toNat_lt]
    rfl
  · rw [← UInt8.toNat_inj, toNat_toUInt8 (hs x hx), toNat_toUInt8 (ht y hy), Char.toNat_inj]

end ObjLog.Lib
