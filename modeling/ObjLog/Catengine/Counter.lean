import Mathlib.Algebra.Order.Field.Rat
import ObjLog.Catengine.Room
import ObjLog.Lib.Radix
/-!
# The sections as a counter

Appends count segments in mixed radix. The active leaf is the lowest digit, of radix
`leafLimit`; section `k` is the `k`-th digit above it, of radix `indexLimit`. A digit
that is full is sealed into one page and that page is the carry. Retention takes
entries away between carries, so with it the digits and the carries can only be fewer.
-/

namespace ObjLog.Catengine

open Lib Catformat Pmeta Blobstore

/-! ## One carry -/

/-- How many of the pages were pushed to section `level`: those of the level below it. -/
def pushedTo (level : Nat) (pages : List PageObject) : Nat := pages.countP fun o => o.level.toNat + 1 = level

theorem pushedTo_cons (level : Nat) (o : PageObject) (os : List PageObject) :
    pushedTo level (o :: os) = pushedTo level os + if o.level.toNat + 1 = level then 1 else 0 := by
  simp [pushedTo, List.countP_cons]

theorem sectionSize_grow (level : Nat) (ss : List OpenIndexSection) (i : Nat) :
    sectionSize (growSections level ss) i = sectionSize ss i := by
  rcases Nat.lt_or_ge i ss.length with hi | hi
  · rw [sectionSize, growSections, List.getElem?_append_left hi, sectionSize]
  · rw [sectionSize, sectionSize, List.getElem?_eq_none hi]
    cases hs : (growSections level ss)[i]? with
    | none => rfl
    | some s =>
      rcases growSections_getElem? hs with h | h
      · exact absurd h (by simp [hi])
      · simp [h]

theorem sectionSize_setEntries {ss : List OpenIndexSection} {i : Nat} (h : i < ss.length) (es : List IndexEntry)
    (j : Nat) : sectionSize (setEntries ss i es) j = if j = i then es.length else sectionSize ss j := by
  simp only [sectionSize, setEntries, List.getElem?_modify]
  split
  · rename_i hj
    subst hj
    simp [List.getElem?_eq_getElem h]
  · rename_i hj
    simp [Ne.symm hj]

theorem toNat_ofNat_lt {n m : Nat} {limit : UInt32} (h : n ≤ m) (hm : m ≤ limit.toNat) : (UInt32.ofNat n).toNat = n :=
  UInt32.toNat_ofNat_of_lt' (Nat.lt_of_le_of_lt (Nat.le_trans h hm) limit.toNat_lt)

section
variable [Hashes] {config : Config}

/-- What a section was given it holds or carried, `indexLimit` references with each page. -/
theorem push_balance {generation writerEpoch : UInt64} (fuel : Nat) {level : Nat} {ref : IndexEntry}
    {ss ss' : List OpenIndexSection} {objects : List PageObject}
    (h : push config generation writerEpoch fuel level ref ss = .ok (ss', objects))
    (hlt : ∀ i, sectionSize ss i < config.indexLimit.toNat) : (∀ i, sectionSize ss' i < config.indexLimit.toNat ∧
      sectionSize ss' i + config.indexLimit.toNat * pushedTo (i + 2) objects =
        sectionSize ss i + pushedTo (i + 1) objects + if i + 1 = level then 1 else 0) ∧
    ∀ k ≤ level, pushedTo k objects = 0 := by
  induction fuel generalizing level ref ss ss' objects with
  | zero => simp [push] at h
  | succ fuel ih =>
    simp only [push, checks_ok, not_or, Nat.not_lt, gt_iff_lt] at h
    obtain ⟨⟨hpos, hmax⟩, _, h⟩ := h
    obtain ⟨n, rfl⟩ : ∃ n, level = n + 1 := ⟨level - 1, by omega⟩
    have hlen : n < (growSections (n + 1) ss).length := by
      rw [length_growSections]
      omega
    rw [Nat.add_sub_cancel] at h
    set entries := (((growSections (n + 1) ss)[n]?.map (·.entries)).getD []) with hentries
    have hsize : entries.length = sectionSize ss n := sectionSize_grow (n + 1) ss n
    have hn := hlt n
    have hnat : (UInt32.ofNat (entries ++ [ref]).length).toNat = sectionSize ss n + 1 := by
      rw [List.length_append, hsize]
      exact toNat_ofNat_lt (Nat.le_refl _) hn
    split at h
    · rename_i hroom
      rw [UInt32.lt_iff_toNat_lt, hnat] at hroom
      simp only [pure_ok, Prod.mk.injEq] at h
      obtain ⟨rfl, rfl⟩ := h
      refine ⟨fun i => ?_, fun _ _ => rfl⟩
      have hi := hlt i
      rw [sectionSize_setEntries hlen, sectionSize_grow, List.length_append, hsize]
      simp only [pushedTo, List.countP_nil, List.length_singleton, Nat.add_right_cancel_iff]
      split <;> subst_vars <;> omega
    · -- the section is full: its references leave it and one page goes up
      rename_i hfull
      rw [UInt32.lt_iff_toNat_lt, hnat] at hfull
      simp only [checks_ok, Prod.exists] at h
      obtain ⟨parent, object, hseal, ss1, rest, hpush, rfl, rfl⟩ := h
      have hlevel : object.level.toNat = n + 1 := by
        rw [(sealIndex_object hseal).2]
        simp only [maxOpenIndexLevel, maxIndexLevel] at hmax
        exact UInt8.toNat_ofNat_of_lt' (by simp only [UInt8.size]; omega)
      have hclear : ∀ i, sectionSize (setEntries (growSections (n + 1) ss) n []) i =
          if i = n then 0 else sectionSize ss i := by
        intro i
        rw [sectionSize_setEntries hlen, sectionSize_grow, List.length_nil]
      obtain ⟨hrest, hnone⟩ := ih hpush fun i => by
        have hi := hlt i
        rw [hclear]
        split <;> omega
      refine ⟨fun i => ?_, fun k hk => ?_⟩
      · obtain ⟨hbound, hsum⟩ := hrest i
        rw [hclear] at hsum
        refine ⟨hbound, ?_⟩
        rw [pushedTo_cons, pushedTo_cons, hlevel, Nat.mul_add]
        rcases Nat.lt_trichotomy i n with hi | rfl | hi
        · simp only [if_neg (show ¬i = n by omega), if_neg (show ¬i + 1 = n + 1 + 1 by omega)] at hsum
          simp only [if_neg (show ¬n + 1 + 1 = i + 2 by omega), if_neg (show ¬n + 1 + 1 = i + 1 by omega),
            if_neg (show ¬i + 1 = n + 1 by omega)]
          omega
        · simp only [if_true, if_neg (show ¬i + 1 = i + 1 + 1 by omega)] at hsum ⊢
          simp only [if_neg (show ¬i + 1 + 1 = i + 1 by omega)]
          omega
        · simp only [if_neg (show ¬i = n by omega)] at hsum
          simp only [if_neg (show ¬n + 1 + 1 = i + 2 by omega), if_neg (show ¬i + 1 = n + 1 by omega)]
          split at hsum <;> split <;> omega
      · rw [pushedTo_cons, hlevel, hnone k (by omega), if_neg (by omega)]

end

/-! ## Digits -/

def radix (config : Config) : Nat → Nat
  | 0 => config.leafLimit.toNat
  | _ + 1 => config.indexLimit.toNat

def digit (head : Head) : Nat → Nat
  | 0 => head.active.length
  | i + 1 => sectionSize head.sections i

/-- What `n` appends that wrote these pages gave each digit. -/
def given (n : Nat) (written : List PageObject) : Nat → Nat
  | 0 => n
  | i + 1 => pushedTo (i + 1) written

theorem given_add (n m : Nat) (xs ys : List PageObject) (i : Nat) :
    given (n + m) (xs ++ ys) i = given n xs i + given m ys i := by
  cases i with
  | zero => rfl
  | succ i => exact List.countP_append

theorem prod_radix (config : Config) (i : Nat) :
    ∏ j ∈ Finset.range (i + 1), radix config j = config.leafLimit.toNat * config.indexLimit.toNat ^ i := by
  rw [Finset.prod_range_succ', Nat.mul_comm]
  simp [radix]

theorem length_eq_sum (n : Nat) (written : List PageObject) :
    written.length = ∑ i ∈ Finset.range 256, given n written (i + 1) := by
  induction written with
  | nil => simp [given, pushedTo]
  | cons o os ih =>
    simp only [given] at ih ⊢
    simp only [pushedTo_cons, Finset.sum_add_distrib, ← ih, List.length_cons, Nat.add_right_cancel_iff,
      Finset.sum_ite_eq, Finset.mem_range]
    rw [if_pos o.level.toNat_lt]

section
variable [Hashes] {config : Config} {head : Head}

/-- An append gives the lowest digit one, and what a digit was given it holds or carried. -/
theorem append_digits {segment : SegmentRef} {m : Mutation} (h : append config head segment = .ok m)
    (hlt : ∀ i, digit head i < radix config i) (i : Nat) : digit m.head i < radix config i ∧
      digit m.head i + radix config i * given 1 m.pages (i + 1) = digit head i + given 1 m.pages i := by
  obtain ⟨active, ss, _, hp, hhead, _⟩ := append_ok h
  have hle : (head.active ++ [Config.entryOf segment]).length ≤ config.leafLimit.toNat := by
    rw [List.length_append]
    exact hlt 0
  have hnat := toNat_ofNat_lt (Nat.le_refl _) hle
  rw [hhead]
  unfold place at hp
  split at hp
  · rename_i hfull
    rw [hfull, List.length_append, List.length_singleton] at hnat
    simp only [checks_ok, Prod.exists] at hp
    obtain ⟨ref, object, hseal, ss1, rest, hpush, rfl, rfl, hpages⟩ := hp
    obtain ⟨hsections, hnone⟩ := push_balance pushFuel hpush fun i => hlt (i + 1)
    have hlevel : object.level.toNat = 0 := by rw [(sealLeaf_object hseal).2]; rfl
    cases i with
    | zero => exact ⟨Nat.zero_lt_of_lt (hlt 0), by simp [digit, radix, given, ← hpages, pushedTo_cons, hlevel, hnone, hnat]⟩
    | succ i =>
      have hsum := (hsections i).2
      simp only [digit, radix, given, ← hpages, pushedTo_cons, hlevel]
      exact ⟨(hsections i).1, by split at hsum <;> simp_all⟩
  · rename_i hroom
    simp only [pure_ok, Prod.mk.injEq] at hp
    obtain ⟨rfl, rfl, hpages⟩ := hp
    rw [← hpages]
    cases i with
    | zero =>
      refine ⟨Nat.lt_of_le_of_ne hle fun heq => hroom (UInt32.toNat_inj.1 (hnat.trans heq)), ?_⟩
      simp [digit, given, pushedTo]
    | succ i => exact ⟨hlt (i + 1), by simp [digit, given, pushedTo]⟩

/-! ## Runs -/

/-- A head after `n` appends, which wrote `written`, from an empty head through any takeovers;
if `retains`, through any retention too, whatever pages it reads. -/
inductive Counted (config : Config) (retains : Prop) : Nat → List PageObject → Head → Prop
  | new {lsn : UInt64} {head : Head} {body : Bytes} :
      newHead config lsn = .ok (head, body) → Counted config retains 0 [] head
  | takeover {n : Nat} {written : List PageObject} {head : Head} {writerID : Arr 16} {m : Mutation} :
      Counted config retains n written head → takeover config head writerID = .ok m →
      Counted config retains n written m.head
  | append {n : Nat} {written : List PageObject} {head : Head} {segment : SegmentRef} {m : Mutation} :
      Counted config retains n written head → append config head segment = .ok m →
      Counted config retains (n + 1) (written ++ m.pages) m.head
  | retention {n : Nat} {written : List PageObject} {head : Head} {pages : Pages} {before version : UInt64}
      {m : Mutation} : retains → Counted config retains n written head →
      eval pages (applyRetention config head before version) = .ok m → Counted config retains n written m.head

/-- A run is a counter; without retention it loses nothing. -/
theorem Counted.counter {retains : Prop} {n : Nat} {written : List PageObject} (hleaf : 1 ≤ config.leafLimit.toNat)
    (hindex : 2 ≤ config.indexLimit.toNat) (h : Counted config retains n written head) :
    Counter (radix config) (digit head) (given n written) ∧
      (¬retains → ∀ i, given n written i ≤ digit head i + radix config i * given n written (i + 1)) := by
  induction h with
  | new h =>
    simp only [newHead, checks_ok] at h
    obtain ⟨_, _, _, rfl, _⟩ := h
    refine ⟨⟨?_, ?_⟩, fun _ => ?_⟩ <;> rintro (_ | i) <;> simp [digit, radix, given, pushedTo, sectionSize, emptyHead] <;>
      omega
  | takeover _ h ih =>
    rw [(takeover_ok h).1.eq]
    exact ih
  | append _ h ih =>
    have hd := append_digits h ih.1.lt
    refine ⟨⟨fun i => (hd i).1, fun i => ?_⟩, fun hr i => ?_⟩ <;> simp only [given_add, Nat.mul_add]
    · have := ih.1.le i
      have := (hd i).2
      omega
    · have := ih.2 hr i
      have := (hd i).2
      omega
  | @retention _ _ head _ _ _ m hr _ h ih =>
    have hf : ∀ i, digit m.head i ≤ digit head i := by
      rintro (_ | i)
      · exact (applyRetention_fewer h).active
      · exact (applyRetention_fewer h).sections i
    exact ⟨⟨fun i => Nat.lt_of_le_of_lt (hf i) (ih.1.lt i),
      fun i => Nat.le_trans (Nat.add_le_add_right (hf i) _) (ih.1.le i)⟩, absurd hr⟩

end

/-- Without retention the active leaf and the sections are the digits of the number of appends.
Whatever retention takes away, appends carry to no level more than those digits would have, so
they write at most `n / L * (I / (I - 1))` pages. -/
theorem appends_count_in_mixed_radix [Hashes] {config : Config} (hleaf : 1 ≤ config.leafLimit.toNat)
    (hindex : 2 ≤ config.indexLimit.toNat) :
    (∀ {n : Nat} {written : List PageObject} {head : Head}, Counted config False n written head →
      head.active.length = n % config.leafLimit.toNat ∧ ∀ k, 1 ≤ k → sectionSize head.sections (k - 1) =
        n / (config.leafLimit.toNat * config.indexLimit.toNat ^ (k - 1)) % config.indexLimit.toNat) ∧
    ∀ {n : Nat} {written : List PageObject} {head : Head}, Counted config True n written head →
      (∀ k, 1 ≤ k → pushedTo k written ≤ n / (config.leafLimit.toNat * config.indexLimit.toNat ^ (k - 1))) ∧
      (written.length : ℚ) ≤
        n / config.leafLimit.toNat * (config.indexLimit.toNat / (config.indexLimit.toNat - 1)) := by
  refine ⟨fun {n _ _} h => ?_, fun {n written _} h => ?_⟩ <;> obtain ⟨hc, hexact⟩ := h.counter hleaf hindex
  · refine ⟨by simpa [digit, given, radix] using hc.digit_eq (hexact not_false) 0, fun k hk => ?_⟩
    obtain ⟨i, rfl⟩ := Nat.exists_eq_add_of_le' hk
    rw [Nat.add_sub_cancel, ← prod_radix]
    exact hc.digit_eq (hexact not_false) (i + 1)
  · refine ⟨fun k hk => ?_, ?_⟩
    · obtain ⟨i, rfl⟩ := Nat.exists_eq_add_of_le' hk
      rw [Nat.add_sub_cancel, ← prod_radix]
      exact hc.given_le (i + 1)
    · have hpages := hc.sum_given_le (fun _ => rfl) 256
      rw [← length_eq_sum n written] at hpages
      have hone : (config.indexLimit.toNat : ℚ) - 1 = (config.indexLimit.toNat - 1 : Nat) := by
        rw [Nat.cast_sub (by omega), Nat.cast_one]
      rw [div_mul_div_comm, hone, ← Nat.cast_mul, ← Nat.cast_mul,
        le_div_iff₀ (Nat.cast_pos.2 (Nat.mul_pos hleaf (by omega))), ← Nat.cast_mul]
      exact Nat.cast_le.2 hpages

/-- Two appends with limits 1 and 2 carry to the second section; retention cuts it again. -/
theorem two_appends_carry : letI := Sample.hashes
    (Sample.two.head.active.length = 0 ∧ sectionSize Sample.two.head.sections 1 = 1) ∧
    pushedTo 2 (Sample.one.pages ++ Sample.two.pages) ≤ 1 := by
  let _ := Sample.hashes
  have hrun : ∀ retains, Counted Sample.config retains 2 ([] ++ Sample.one.pages ++ Sample.two.pages) Sample.two.head :=
    fun _ => .append (.append (.takeover (.new Sample.created_ok) Sample.taken_ok) Sample.one_ok) Sample.two_ok
  have hlimits : 1 ≤ Sample.config.leafLimit.toNat ∧ 2 ≤ Sample.config.indexLimit.toNat := by decide
  obtain ⟨hdigits, hcarries⟩ := appends_count_in_mixed_radix hlimits.1 hlimits.2
  refine ⟨⟨(hdigits (hrun False)).1, (hdigits (hrun False)).2 2 (by decide)⟩, ?_⟩
  exact (hcarries (.retention trivial (hrun True) Sample.cut_ok)).1 2 (by decide)

end ObjLog.Catengine
