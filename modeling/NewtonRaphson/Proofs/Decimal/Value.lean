import NewtonRaphson.Proofs.Precision

/-! # The values of decimals and of numerals

Fractions, decimals and the texts of decimals all stand for rational numbers: the digits before and
behind the point for one, and behind an `e` stands the power of ten.

* **`Fraction.value`**, **`Decimal.value`** — the numbers that fractions and decimals stand for.
* **`Numeral.IsNumeral`** — a text is a numeral of a number: digits, a point, digits, and perhaps a
  power of ten.
* **`Decimal.isNumeral_plainText`** — the text of a decimal, positional or with a power of ten, is a
  numeral of its value. -/

namespace NewtonRaphson

/-! ## (1) Fractions -/

namespace Fraction

/-- The **value** of a fraction. -/
def value (x : Fraction) : ℚ := x.num / x.den

theorem tenTo_eq (n : Nat) : tenTo n = 10 ^ n := rfl

/-- An integer power by the natural number that its exponent is. -/
theorem zpow_of_nonneg (b : ℚ) {e : Int} (he : 0 ≤ e) : b ^ e = b ^ e.toNat := by
  rw [← zpow_natCast, Int.toNat_of_nonneg he]

/-- Below zero it is the inverse of one. -/
theorem zpow_of_neg (b : ℚ) {e : Int} (he : e < 0) : b ^ e = (b ^ (-e).toNat)⁻¹ := by
  rw [← zpow_natCast, Int.toNat_of_nonneg (by omega), zpow_neg, inv_inv]

theorem den_ofBinary_pos (m : Nat) (e : Int) : 0 < (ofBinary m e).den := by
  unfold ofBinary
  split
  · exact Nat.one_pos
  · exact twoTo_pos _

@[simp] theorem value_ofBinary (m : Nat) (e : Int) : (ofBinary m e).value = m * 2 ^ e := by
  unfold ofBinary value
  split
  · rename_i he
    rw [zpow_of_nonneg 2 he, Double.twoTo_eq]
    push_cast
    rw [div_one]
  · rename_i he
    rw [zpow_of_neg 2 (not_le.mp he), Double.twoTo_eq]
    push_cast
    rfl

theorem den_inUnitsOf_pos {x : Fraction} (hx : 0 < x.den) (e : Int) : 0 < (x.inUnitsOf e).den := by
  unfold inUnitsOf
  split
  · exact Nat.mul_pos hx (tenTo_pos _)
  · exact hx

/-- Units of a power of ten are counted by dividing. -/
@[simp] theorem value_inUnitsOf (e : Int) (x : Fraction) :
    (x.inUnitsOf e).value = x.value / 10 ^ e := by
  unfold inUnitsOf value
  split
  · rename_i he
    rw [zpow_of_nonneg 10 he, tenTo_eq]
    push_cast
    rw [div_div]
  · rename_i he
    rw [zpow_of_neg 10 (not_le.mp he), tenTo_eq]
    push_cast
    rw [div_inv_eq_mul, div_mul_eq_mul_div]

/-- A fraction is below a power of ten exactly if its value is. -/
theorem below_iff {x : Fraction} (hx : 0 < x.den) (e : Int) :
    x.below e = true ↔ x.value < 10 ^ e := by
  have hden : (0 : ℚ) < (x.inUnitsOf e).den := by exact_mod_cast den_inUnitsOf_pos hx e
  have hunit : (0 : ℚ) < 10 ^ e := by positivity
  rw [below, decide_eq_true_iff, ← div_lt_one hunit, ← value_inUnitsOf, value, div_lt_one hden,
    Nat.cast_lt]

end Fraction

/-! ## (2) Decimals -/

/-- The number that digits stand for. -/
def digitsValue (ds : List Char) : Nat := Nat.ofDigitChars 10 ds 0

theorem digitsValue_append (ds es : List Char) :
    digitsValue (ds ++ es) = digitsValue ds * 10 ^ es.length + digitsValue es := by
  rw [digitsValue, Nat.ofDigitChars_append, Nat.ofDigitChars_eq_ofDigitChars_zero, Nat.mul_comm]
  rfl

/-- Zeros in front of digits stand for nothing. -/
@[simp] theorem digitsValue_zeros_append (k : Nat) (ds : List Char) :
    digitsValue (List.replicate k '0' ++ ds) = digitsValue ds := by
  rw [digitsValue, Nat.ofDigitChars_append, Nat.ofDigitChars_replicate_zero, Nat.mul_zero]
  rfl

@[simp] theorem digitsValue_zero_cons (ds : List Char) : digitsValue ('0' :: ds) = digitsValue ds :=
  digitsValue_zeros_append 1 ds

/-- Zeros behind digits multiply by a power of ten. -/
theorem digitsValue_append_zeros (ds : List Char) (k : Nat) :
    digitsValue (ds ++ List.replicate k '0') = digitsValue ds * 10 ^ k := by
  have hzeros : digitsValue (List.replicate k '0') = 0 := by
    rw [digitsValue, Nat.ofDigitChars_replicate_zero, Nat.mul_zero]
  rw [digitsValue_append, hzeros, List.length_replicate, Nat.add_zero]

@[simp] theorem digitsValue_toDigits (n : Nat) : digitsValue (Nat.toDigits 10 n) = n :=
  Nat.ofDigitChars_ten_toDigits

/-- Whether all characters are digits. -/
def AreDigits (ds : List Char) : Prop := ∀ c ∈ ds, c.isDigit = true

theorem areDigits_toDigits (n : Nat) : AreDigits (Nat.toDigits 10 n) := fun _ hc =>
  Nat.isDigit_of_mem_toDigits (by decide) (by decide) hc

theorem areDigits_replicate (k : Nat) : AreDigits (List.replicate k '0') := fun _ hc =>
  List.eq_of_mem_replicate hc ▸ rfl

theorem AreDigits.append {ds es : List Char} (hds : AreDigits ds) (hes : AreDigits es) :
    AreDigits (ds ++ es) :=
  List.forall_mem_append.mpr ⟨hds, hes⟩

namespace Decimal

/-- The **value** of a decimal: its last digit stands at a power of ten. -/
def value (d : Decimal) : ℚ := digitsValue d.digits * 10 ^ (d.exponent + 1 - d.digits.length)

/-- A decimal is made of the number of its units. -/
@[simp] theorem value_ofUnits (n : Nat) (unit : Int) : (ofUnits n unit).value = n * 10 ^ unit := by
  unfold ofUnits value
  dsimp only
  rw [digitsValue_toDigits]
  congr 2
  omega

theorem areDigits_ofUnits (n : Nat) (unit : Int) : AreDigits (ofUnits n unit).digits :=
  areDigits_toDigits n

/-- Trimming takes zeros off the end. -/
theorem exists_digits_eq_trim (d : Decimal) :
    ∃ k, d.digits = d.trim.digits ++ List.replicate k '0' := by
  obtain ⟨k, hzeros⟩ : ∃ k, d.digits.reverse.takeWhile (· == '0') = List.replicate k '0' :=
    ⟨_, List.eq_replicate_iff.mpr ⟨rfl, fun c hc => by simpa using List.mem_takeWhile_imp hc⟩⟩
  have hsplit := List.takeWhile_append_dropWhile (p := (· == '0')) (l := d.digits.reverse)
  have hback := congrArg List.reverse hsplit
  rw [List.reverse_append, List.reverse_reverse, hzeros, List.reverse_replicate] at hback
  exact ⟨k, hback.symm⟩

/-- **Trimming keeps the value.** -/
@[simp] theorem value_trim (d : Decimal) : d.trim.value = d.value := by
  obtain ⟨k, hk⟩ := d.exists_digits_eq_trim
  have hexponent : d.trim.exponent = d.exponent := rfl
  unfold value
  rw [hk, hexponent, digitsValue_append_zeros, List.length_append, List.length_replicate]
  push_cast
  rw [mul_assoc, ← zpow_natCast, ← zpow_add₀ (by norm_num)]
  congr 2
  ring

theorem areDigits_trim {d : Decimal} (h : AreDigits d.digits) : AreDigits d.trim.digits := by
  obtain ⟨k, hk⟩ := d.exists_digits_eq_trim
  rw [hk] at h
  exact fun c hc => h c (List.mem_append_left _ hc)

end Decimal

/-! ## (3) Numerals -/

namespace Numeral

/-- Digits, with a point behind some of them or not, and the number that they **stand for**. -/
inductive IsFixed : List Char → ℚ → Prop
  | whole {ds : List Char} (hds : AreDigits ds) (hne : ds ≠ []) : IsFixed ds (digitsValue ds)
  | point {ds es : List Char} (hds : AreDigits ds) (hne : ds ≠ []) (hes : AreDigits es) :
    IsFixed (ds ++ '.' :: es) (digitsValue (ds ++ es) * 10 ^ (-es.length : ℤ))

/-- A **numeral** and the number that it stands for: such digits, which may be followed by a power
of ten. -/
inductive IsNumeral : List Char → ℚ → Prop
  | fixed {cs : List Char} {v : ℚ} (h : IsFixed cs v) : IsNumeral cs v
  | raised {cs es : List Char} {v : ℚ} (h : IsFixed cs v) (hes : AreDigits es) (hne : es ≠ []) :
    IsNumeral (cs ++ 'e' :: '+' :: es) (v * 10 ^ (digitsValue es : ℤ))
  | lowered {cs es : List Char} {v : ℚ} (h : IsFixed cs v) (hes : AreDigits es) (hne : es ≠ []) :
    IsNumeral (cs ++ 'e' :: '-' :: es) (v * 10 ^ (-digitsValue es : ℤ))

section Characters

variable {cs ds : List Char} {v : ℚ}

/-- What stands before the first of some character, and what stands behind it. -/
theorem split_at {c : Char} (hc : c ∉ cs) (t : List Char) :
    (cs ++ c :: t).takeWhile (· != c) = cs ∧ (cs ++ c :: t).dropWhile (· != c) = c :: t := by
  have hbefore : ∀ a ∈ cs, (a != c) = true := fun a ha => bne_iff_ne.mpr fun h => hc (h ▸ ha)
  rw [List.takeWhile_append_of_pos hbefore, List.dropWhile_append_of_pos hbefore]
  simp

theorem notMem_of_areDigits (hds : AreDigits ds) {c : Char} (hc : c.isDigit = false) :
    c ∉ ds := fun h =>
  absurd (hds c h) (Bool.eq_false_iff.mp hc)

/-- The characters of such digits. -/
theorem IsFixed.isDigit_or_eq (h : IsFixed cs v) : ∀ c ∈ cs, c.isDigit = true ∨ c = '.' := by
  cases h with
  | whole hds => exact fun c hc => .inl (hds c hc)
  | point hds _ hes =>
    refine List.forall_mem_append.mpr ⟨fun c hc => .inl (hds c hc),
      List.forall_mem_cons.mpr ⟨.inr rfl, ?_⟩⟩
    exact fun c hc => .inl (hes c hc)

/-- The characters of a numeral. -/
theorem IsNumeral.isDigit_or_mem (h : IsNumeral cs v) :
    ∀ c ∈ cs, c.isDigit = true ∨ c ∈ ['.', 'e', '+', '-'] := by
  have hfixed {cs : List Char} {v : ℚ} (h : IsFixed cs v) :
      ∀ c ∈ cs, c.isDigit = true ∨ c ∈ ['.', 'e', '+', '-'] := fun c hc =>
    (h.isDigit_or_eq c hc).imp_right fun hpoint => List.mem_cons.mpr (.inl hpoint)
  cases h with
  | fixed h => exact hfixed h
  | raised h hes | lowered h hes =>
    refine List.forall_mem_append.mpr ⟨hfixed h, List.forall_mem_cons.mpr ⟨.inr (by decide), ?_⟩⟩
    exact List.forall_mem_cons.mpr ⟨.inr (by decide), fun c hc => .inl (hes c hc)⟩

/-- A numeral begins with a digit. -/
theorem IsNumeral.exists_cons (h : IsNumeral cs v) : ∃ c t, cs = c :: t ∧ c.isDigit = true := by
  have hdigits {ds : List Char} (hds : AreDigits ds) (hne : ds ≠ []) (t : List Char) :
      ∃ c t', ds ++ t = c :: t' ∧ c.isDigit = true := by
    obtain ⟨c, ds, rfl⟩ := List.exists_cons_of_ne_nil hne
    exact ⟨c, ds ++ t, rfl, hds c List.mem_cons_self⟩
  have hfixed {cs : List Char} {v : ℚ} (h : IsFixed cs v) (t : List Char) :
      ∃ c t', cs ++ t = c :: t' ∧ c.isDigit = true := by
    cases h with
    | whole hds hne => exact hdigits hds hne t
    | point hds hne => exact List.append_assoc _ _ t ▸ hdigits hds hne _
  cases h with
  | fixed h => exact List.append_nil cs ▸ hfixed h []
  | raised h | lowered h => exact hfixed h _

end Characters

end Numeral

/-! ### Decimals as numerals -/

namespace Decimal

/-- The text of a decimal in plain form. -/
def plainText (d : Decimal) : String :=
  if -4 ≤ d.exponent ∧ d.exponent < 16 then
    d.positional ++ if d.exponent.toNat + 1 ≥ d.digits.length ∧ d.exponent ≥ 0 then ".0" else ""
  else d.scientific

open Numeral (IsFixed IsNumeral)

variable {d : Decimal}

/-- Below one the digits stand behind the point, after as many zeros as the power of ten says. -/
theorem isFixed_of_neg (hd : AreDigits d.digits) (he : d.exponent < 0) :
    IsFixed d.positional.toList d.value := by
  have htext : d.positional.toList =
      ['0'] ++ '.' :: (List.replicate (-d.exponent - 1).toNat '0' ++ d.digits) := by
    rw [positional, if_pos he]
    simp only [String.toList_append, String.toList_ofList]
    rfl
  have hvalue :
      d.value = digitsValue (['0'] ++ (List.replicate (-d.exponent - 1).toNat '0' ++ d.digits)) *
      10 ^ (-(List.replicate (-d.exponent - 1).toNat '0' ++ d.digits).length : ℤ) := by
    rw [List.singleton_append, digitsValue_zero_cons, digitsValue_zeros_append, List.length_append,
      List.length_replicate, value]
    congr 2
    omega
  rw [htext, hvalue]
  exact .point (areDigits_replicate 1) (List.cons_ne_nil _ _) ((areDigits_replicate _).append hd)

section Nonneg

variable {e : Nat} (he : d.exponent = e)
include he

/-- From one on the digits are brought up to the point by zeros, if there are too few of them. -/
theorem positional_of_short {k : Nat} (hk : e + 1 = d.digits.length + k) :
    d.positional = String.ofList (d.digits ++ List.replicate k '0') := by
  have hlength : (d.digits ++ List.replicate k '0').length ≤ e + 1 := by
    rw [List.length_append, List.length_replicate, hk]
  unfold positional
  rw [if_neg (by omega), he, Int.toNat_natCast]
  dsimp only
  rw [show e + 1 - d.digits.length =
    k by omega, List.take_of_length_le hlength, List.drop_of_length_le hlength]
  exact congrArg String.ofList (List.append_nil _)

/-- Otherwise they stand around it. -/
theorem positional_of_long (hlong : e + 1 < d.digits.length) :
    d.positional = String.ofList (d.digits.take (e + 1) ++ '.' :: d.digits.drop (e + 1)) := by
  have hrest : (d.digits.drop (e + 1)).isEmpty = false := by
    rw [List.isEmpty_eq_false_iff, ne_eq, List.drop_eq_nil_iff]
    omega
  unfold positional
  rw [if_neg (by omega), he, Int.toNat_natCast]
  dsimp only
  rw [show e + 1 - d.digits.length = 0 by omega, List.replicate_zero, List.append_nil, hrest]
  rfl

/-- The zero that follows a whole number stands for nothing. -/
theorem isFixed_of_nonneg (hd : AreDigits d.digits) :
    IsFixed (d.positional ++ if e + 1 ≥ d.digits.length then ".0" else "").toList d.value := by
  rcases le_or_gt d.digits.length (e + 1) with hshort | hlong
  · obtain ⟨k, hk⟩ : ∃ k, e + 1 = d.digits.length + k := ⟨e + 1 - d.digits.length, by omega⟩
    have hvalue : d.value = digitsValue ((d.digits ++ List.replicate k '0') ++ ['0']) *
        10 ^ (-['0'].length : ℤ) := by
      have hzero : digitsValue ((d.digits ++ List.replicate k '0') ++ ['0']) =
          digitsValue d.digits * 10 ^ k * 10 ^ 1 := by
        rw [← digitsValue_append_zeros, ← digitsValue_append_zeros]
        rfl
      have hplace : d.exponent + 1 - d.digits.length = k := by omega
      rw [hzero, value, hplace]
      simp
    have hne : d.digits ++ List.replicate k '0' ≠ [] := by
      rw [← List.length_pos_iff, List.length_append, List.length_replicate, ← hk]
      exact Nat.succ_pos e
    rw [positional_of_short he hk, if_pos hshort, String.toList_append,
      String.toList_ofList, hvalue]
    exact .point (hd.append (areDigits_replicate k)) hne (areDigits_replicate 1)
  · have hvalue : d.value =
        digitsValue (d.digits.take (e + 1) ++ d.digits.drop (e + 1)) *
        10 ^ (-(d.digits.drop (e + 1)).length : ℤ) := by
      rw [List.take_append_drop, List.length_drop, value]
      congr 2
      omega
    have hne : d.digits.take (e + 1) ≠ [] := by
      rw [← List.length_pos_iff, List.length_take]
      omega
    rw [positional_of_long he hlong, if_neg (by omega), String.append_empty,
      String.toList_ofList, hvalue]
    exact .point (fun c hc => hd c (List.mem_of_mem_take hc)) hne fun c hc =>
      hd c (List.mem_of_mem_drop hc)

end Nonneg

/-- The text of a power of ten. -/
theorem exists_exponentText (e : Int) : ∃ es, AreDigits es ∧ es ≠ [] ∧ digitsValue es = e.natAbs ∧
    (exponentText e).toList = 'e' :: (if e < 0 then '-' else '+') :: es := by
  refine ⟨if e.natAbs < 10 then '0' :: Nat.toDigits 10 e.natAbs else Nat.toDigits 10 e.natAbs,
    ?_, ?_, ?_, ?_⟩
  · split
    · exact (areDigits_replicate 1).append (areDigits_toDigits _)
    · exact areDigits_toDigits _
  · split
    · exact List.cons_ne_nil _ _
    · exact Nat.toDigits_ne_nil
  · split <;> simp
  · unfold exponentText
    split <;> split <;> simp [String.toList_append]

/-- With a power of ten one digit stands before the point. -/
theorem isNumeral_scientific (hd : AreDigits d.digits) : IsNumeral d.scientific.toList d.value := by
  obtain ⟨es, hes, hne, hexponent, htext⟩ := exists_exponentText d.exponent
  have hmantissa : ∃ mantissa : String, d.scientific = mantissa ++ exponentText d.exponent ∧
      IsFixed mantissa.toList (digitsValue d.digits * 10 ^ (1 - d.digits.length : ℤ)) := by
    refine ⟨_, rfl, ?_⟩
    generalize d.digits = ds at hd
    match ds, hd with
    | [], _ =>
      have hzero : (digitsValue [] : ℚ) * 10 ^ (1 - ([] : List Char).length : ℤ) =
          digitsValue ['0'] := by
        rw [show digitsValue [] = 0 from rfl, show digitsValue ['0'] = 0 from rfl,
          Nat.cast_zero, zero_mul]
      rw [hzero]
      exact .whole (areDigits_replicate 1) (List.cons_ne_nil _ _)
    | [c], hd =>
      have hone : (digitsValue [c] : ℚ) * 10 ^ (1 - [c].length : ℤ) = digitsValue [c] := by simp
      rw [hone, String.toList_singleton]
      exact .whole hd (List.cons_ne_nil _ _)
    | c :: c' :: rest, hd =>
      obtain ⟨hc, hrest⟩ := List.forall_mem_cons.mp hd
      have hplaces : (1 - (c :: c' :: rest).length : ℤ) = -(c' :: rest).length := by
        rw [List.length_cons]
        omega
      rw [hplaces, String.toList_ofList]
      exact .point (List.forall_mem_singleton.mpr hc) (List.cons_ne_nil _ _) hrest
  obtain ⟨mantissa, hscientific, hfixed⟩ := hmantissa
  have hvalue :
      d.value = digitsValue d.digits * 10 ^ (1 - d.digits.length : ℤ) * 10 ^ d.exponent := by
    rw [mul_assoc, ← zpow_add₀ (by norm_num), value]
    congr 2
    omega
  rw [hscientific, String.toList_append, htext, hvalue]
  by_cases he : d.exponent < 0
  · rw [if_pos he, show d.exponent = -digitsValue es by omega]
    exact .lowered hfixed hes hne
  · rw [if_neg he, show d.exponent = digitsValue es by omega]
    exact .raised hfixed hes hne

/-- **The text of a decimal** is a numeral that stands for its value. -/
theorem isNumeral_plainText (hd : AreDigits d.digits) : IsNumeral d.plainText.toList d.value := by
  unfold plainText
  split
  · rcases lt_or_ge d.exponent 0 with he | he
    · have hnone : ¬ (d.exponent.toNat + 1 ≥ d.digits.length ∧ d.exponent ≥ 0) :=
        fun h => not_le.mpr he h.2
      rw [if_neg hnone, String.append_empty]
      exact .fixed (isFixed_of_neg hd he)
    · have hfixed := isFixed_of_nonneg (Int.toNat_of_nonneg he).symm hd
      simp only [he, and_true]
      exact .fixed hfixed
  · exact isNumeral_scientific hd

end Decimal

end NewtonRaphson
