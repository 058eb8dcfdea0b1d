import NewtonRaphson.Decimal.Reading
import NewtonRaphson.Proofs.Decimal.Plain
import NewtonRaphson.Proofs.Double.Integers

/-! # Reading and writing numerals

A fraction is read as the double whose neighbourhood it is in, so that what is read is the nearest
double there is. The plain text of a double is a fraction of its neighbourhood, and is therefore
read as that double again.

* **`Fraction.leadingBit_bounds`** — the place of the leading bit.
* **`Fraction.contains_nearest`** — the double that a fraction is rounded to has it in its
  neighbourhood.
* **`Fraction.nearest_eq_of_contains`** — a fraction in the neighbourhood of a double is rounded to
  it.
* **`Numeral.ofUnits_eq`**, **`Numeral.ofDigits?_of_isNumeral`** — digits that denote a double are
  read as it, and a numeral is read by its digits.
* **`Numeral.read?_plain`**, **`Numeral.plain_injective`** — reading undoes writing, so that doubles
  with the same plain text are the same. -/

namespace NewtonRaphson

open Double (IsCanonical)

/-- Halfway between two numbers the even one is taken. -/
theorem roundHalfEven_even_of_tie {n d : Nat} (hd : 0 < d)
    (h : 2 * (roundHalfEven n d * d) = 2 * n + d ∨ 2 * n = 2 * (roundHalfEven n d * d) + d) :
    roundHalfEven n d % 2 = 0 := by
  have hn : d * (n / d) + n % d = n := Nat.div_add_mod n d
  have hr : n % d < d := Nat.mod_lt n hd
  unfold roundHalfEven at h ⊢
  dsimp only at h ⊢
  generalize n / d = q at *
  generalize n % d = rest at *
  have hnext : (q + 1) * d = d * q + d := by ring
  have hsame : q * d = d * q := Nat.mul_comm q d
  split at h <;> rename_i hlow
  · omega
  · rw [if_neg hlow]
    split at h <;> rename_i hhigh
    · omega
    · rw [if_neg hhigh]
      omega

namespace Fraction

variable {x : Fraction}

/-! ## (1) Binary units -/

theorem den_inBinaryUnitsOf_pos (hx : 0 < x.den) (e : Int) : 0 < (x.inBinaryUnitsOf e).den := by
  unfold inBinaryUnitsOf
  split
  · exact Nat.mul_pos hx (twoTo_pos _)
  · exact hx

/-- Units of a power of two are counted by dividing. -/
@[simp] theorem value_inBinaryUnitsOf (e : Int) (x : Fraction) :
    (x.inBinaryUnitsOf e).value = x.value / 2 ^ e := by
  unfold inBinaryUnitsOf value
  split
  · rename_i he
    rw [zpow_of_nonneg 2 he, Double.twoTo_eq]
    push_cast
    rw [div_div]
  · rename_i he
    rw [zpow_of_neg 2 (not_le.mp he), Double.twoTo_eq]
    push_cast
    rw [div_inv_eq_mul, div_mul_eq_mul_div]

/-- The lengths of numerator and denominator bound the value of a fraction from above, too. -/
theorem value_lt_two_zpow (hden : 0 < x.den) :
    x.value < (2 : ℚ) ^ ((x.num.log2 : ℤ) - x.den.log2 + 1) := by
  have hpos : (0 : ℚ) < x.den := by exact_mod_cast hden
  have hhigh : (x.num : ℚ) < 2 ^ (x.num.log2 + 1) := by exact_mod_cast Nat.lt_log2_self
  have hlow : (2 : ℚ) ^ x.den.log2 ≤ x.den := by exact_mod_cast Nat.log2_self_le hden.ne'
  rw [value, div_lt_iff₀ hpos]
  calc (x.num : ℚ) < 2 ^ (x.num.log2 + 1) := hhigh
    _ = 2 ^ ((x.num.log2 : ℤ) - x.den.log2 + 1) * 2 ^ x.den.log2 := by
        rw [← zpow_natCast, ← zpow_natCast, ← zpow_add₀ (by norm_num)]
        congr 1
        push_cast
        ring
    _ ≤ 2 ^ ((x.num.log2 : ℤ) - x.den.log2 + 1) * x.den :=
        mul_le_mul_of_nonneg_left hlow (by positivity)

/-- **The leading bit** of a positive fraction: the power of two that it reaches, but not the
next. -/
theorem leadingBit_bounds (hnum : 0 < x.num) (hden : 0 < x.den) :
    (2 : ℚ) ^ x.leadingBit ≤ x.value ∧ x.value < 2 ^ (x.leadingBit + 1) := by
  have hlow := two_zpow_le_value hnum hden
  have hhigh := value_lt_two_zpow hden
  unfold leadingBit
  dsimp only
  generalize hguess : (x.num.log2 : ℤ) - x.den.log2 = guess at *
  have hpos : (0 : ℚ) < (x.inBinaryUnitsOf guess).den := by
    exact_mod_cast den_inBinaryUnitsOf_pos hden guess
  have hbelow : (x.inBinaryUnitsOf guess).num < (x.inBinaryUnitsOf guess).den ↔
      x.value < 2 ^ guess := by
    rw [← div_lt_one (by positivity : (0 : ℚ) < 2 ^ guess), ← value_inBinaryUnitsOf, value,
      div_lt_one hpos, Nat.cast_lt]
  split
  · rename_i hless
    rw [sub_add_cancel]
    exact ⟨hlow, hbelow.mp hless⟩
  · rename_i hnot
    exact ⟨not_lt.mp fun hless => hnot (hbelow.mpr hless), hhigh⟩

/-! ## (2) The nearest double -/

/-- Halfway between two numbers the even one is taken, of the values of fractions as well. -/
theorem even_of_value_tie (hden : 0 < x.den)
    (h : x.value = roundHalfEven x.num x.den - 1 / 2 ∨
      x.value = roundHalfEven x.num x.den + 1 / 2) :
    roundHalfEven x.num x.den % 2 = 0 := by
  have hpos : (0 : ℚ) < x.den := by exact_mod_cast hden
  have hnum : x.value * x.den = x.num := div_mul_cancel₀ _ hpos.ne'
  refine roundHalfEven_even_of_tie hden ?_
  rcases h with h | h
  · left
    have htwice : 2 * (roundHalfEven x.num x.den * x.den : ℚ) = 2 * x.num + x.den := by
      rw [← hnum, h]
      ring
    exact_mod_cast htwice
  · right
    have htwice : 2 * (x.num : ℚ) = 2 * (roundHalfEven x.num x.den * x.den) + x.den := by
      rw [← hnum, h]
      ring
    exact_mod_cast htwice

/-- A number is in the neighbourhood of the double that its units are rounded to. Below a power of
two the neighbourhood is half as wide. -/
theorem contains_of_units {m : Nat} {e : Int} {v : ℚ} (negative : Bool) (hm : 0 < m)
    (hlow : (m : ℚ) - 1 / 2 ≤ v / 2 ^ e) (hhigh : v / 2 ^ e ≤ m + 1 / 2)
    (htie : v / 2 ^ e = m - 1 / 2 ∨ v / 2 ^ e = m + 1 / 2 → m % 2 = 0)
    (hfull : m = 2 ^ 52 → e ≠ -1074 → (m : ℚ) - 1 / 4 ≤ v / 2 ^ e) :
    (Decimal.Neighbourhood.ofBinary ⟨negative, m, e⟩).Contains v := by
  have hunit : (0 : ℚ) < 2 ^ (e - 2) := by positivity
  obtain ⟨q, hq⟩ : ∃ q, v / 2 ^ e = q := ⟨_, rfl⟩
  have hv : v = 4 * q * 2 ^ (e - 2) := by
    rw [← hq, zpow_sub₀ (by norm_num)]
    field_simp
    norm_num
  rw [hq] at hlow hhigh htie hfull
  have hlower : ∀ lower : ℕ,
      (if m = twoTo 52 ∧ e ≠ -1074 then 4 * m - 1 else 4 * m - 2) = lower →
      (lower : ℚ) ≤ 4 * q ∧ ((lower : ℚ) = 4 * q → m % 2 = 0 ∨ q = m - 1 / 2) := by
    rintro lower rfl
    split
    · rename_i hpower
      have hquarter := hfull hpower.1 hpower.2
      rw [Nat.cast_sub (by omega)]
      push_cast
      exact ⟨by linarith, fun _ => .inl (by rw [hpower.1]; decide)⟩
    · rw [Nat.cast_sub (by omega)]
      push_cast
      exact ⟨by linarith, fun h => .inr (by linarith)⟩
  obtain ⟨hreached, hend⟩ := hlower _ rfl
  unfold Decimal.Neighbourhood.Contains
  rw [hv]
  show if decide (m % 2 = 0) = true then _ * 2 ^ (e - 2) ≤ _ ∧
    _ ≤ ((4 * m + 2 : ℕ) : ℚ) * 2 ^ (e - 2)
    else _ * 2 ^ (e - 2) < _ ∧ _ < ((4 * m + 2 : ℕ) : ℚ) * 2 ^ (e - 2)
  push_cast
  split
  · rw [mul_le_mul_iff_left₀ hunit, mul_le_mul_iff_left₀ hunit]
    exact ⟨hreached, by linarith⟩
  · rename_i hclosed
    have hodd : m % 2 ≠ 0 := of_decide_eq_false (Bool.eq_false_iff.mpr hclosed)
    rw [mul_lt_mul_iff_left₀ hunit, mul_lt_mul_iff_left₀ hunit]
    refine ⟨lt_of_le_of_ne hreached fun h => ?_, ?_⟩
    · exact hodd ((hend h).elim id fun hq => htie (.inl hq))
    · have hupper := lt_of_le_of_ne hhigh fun hq => hodd (htie (.inr hq))
      linarith

/-- So is a number whose units are rounded up to the next power of two, which has units twice as
wide. -/
theorem contains_of_carry {e : Int} {v : ℚ} (negative : Bool)
    (hlow : (2 : ℚ) ^ 53 - 1 / 2 ≤ v / 2 ^ e) (hhigh : v / 2 ^ e < 2 ^ 53) :
    (Decimal.Neighbourhood.ofBinary ⟨negative, 2 ^ 52, e + 1⟩).Contains v := by
  have hhalf : v / 2 ^ (e + 1) = v / 2 ^ e / 2 := by
    rw [zpow_add_one₀ (by norm_num), div_div]
  refine contains_of_units negative (by norm_num) ?_ ?_ (fun _ => by norm_num) fun _ _ => ?_
  all_goals
    rw [hhalf]
    push_cast
    linarith

/-- In the units of the last bit a positive fraction is below the full length, and reaches it unless
the units are the least there are. -/
theorem units_bounds (hnum : 0 < x.num) (hden : 0 < x.den) {e : ℤ}
    (he : max (x.leadingBit - 52) (-1074) = e) :
    x.value / 2 ^ e < 2 ^ 53 ∧ (e ≠ -1074 → (2 : ℚ) ^ 52 ≤ x.value / 2 ^ e) := by
  obtain ⟨hleast, hnext⟩ := leadingBit_bounds hnum hden
  have hunit : (0 : ℚ) < 2 ^ e := by positivity
  constructor
  · rw [div_lt_iff₀ hunit]
    calc x.value < 2 ^ (x.leadingBit + 1) := hnext
      _ ≤ 2 ^ (53 + e) := zpow_le_zpow_right₀ (by norm_num) (by omega)
      _ = 2 ^ 53 * 2 ^ e := by rw [zpow_add₀ (by norm_num)]; norm_num
  · intro hne
    rw [le_div_iff₀ hunit]
    calc (2 : ℚ) ^ 52 * 2 ^ e = 2 ^ (52 + e) := by rw [zpow_add₀ (by norm_num)]; norm_num
      _ ≤ 2 ^ x.leadingBit := zpow_le_zpow_right₀ (by norm_num) (by omega)
      _ ≤ x.value := hleast

/-- **The double that a positive fraction is rounded to** has canonical parts and the fraction in
its neighbourhood; it is a zero only for a fraction of at most half the least double. -/
theorem contains_nearest (hnum : 0 < x.num) (hden : 0 < x.den) (negative : Bool) :
    (x.nearest negative).negative = negative ∧
      IsCanonical (x.nearest negative).mantissa (x.nearest negative).exponent ∧
      ((x.nearest negative).mantissa ≠ 0 →
        (Decimal.Neighbourhood.ofBinary (x.nearest negative)).Contains x.value) ∧
      ((x.nearest negative).mantissa = 0 → x.value ≤ 2 ^ (-1075 : ℤ)) := by
  unfold nearest
  dsimp only
  generalize hexponent : max (x.leadingBit - 52) (-1074) = e
  obtain ⟨hshort, hfull⟩ := units_bounds hnum hden hexponent
  have hdenUnits := den_inBinaryUnitsOf_pos hden e
  obtain ⟨hup, hdown⟩ := roundHalfEven_value_bounds hdenUnits
  have heven := even_of_value_tie hdenUnits
  rw [value_inBinaryUnitsOf] at hup hdown heven
  generalize roundHalfEven (x.inBinaryUnitsOf e).num (x.inBinaryUnitsOf e).den = m at *
  have hsize : m ≤ 2 ^ 53 := by
    have hcast : (m : ℚ) < 2 ^ 53 + 1 := by linarith
    exact Nat.lt_succ_iff.mp (by exact_mod_cast hcast)
  rw [Double.twoTo_eq, Double.twoTo_eq]
  split
  · rename_i hcarry
    subst hcarry
    push_cast at hup
    have hlow : (2 : ℚ) ^ 53 - 1 / 2 ≤ x.value / 2 ^ e := by linarith
    exact ⟨rfl, ⟨by dsimp only; norm_num, by dsimp only; omega, .inr le_rfl⟩,
      fun _ => contains_of_carry negative hlow hshort, fun hzero => absurd hzero (by norm_num)⟩
  · rename_i hne
    refine ⟨rfl, ⟨lt_of_le_of_ne hsize hne, by dsimp only; omega, ?_⟩, fun hm => ?_, fun hm => ?_⟩
    · by_cases he : e = -1074
      · exact .inl he
      · right
        have hreached : (2 : ℚ) ^ 52 < m + 1 := by
          have := hfull he
          linarith
        exact Nat.lt_succ_iff.mp (by exact_mod_cast hreached)
    · refine contains_of_units negative (Nat.pos_of_ne_zero hm) (by linarith) hdown heven
        fun hpower he => ?_
      have hreached := hfull he
      rw [hpower]
      push_cast
      linarith
    · obtain rfl : m = 0 := hm
      have he : e = -1074 := by
        by_contra he
        have hreached := hfull he
        push_cast at hdown
        linarith
      rw [he, div_le_iff₀ (by positivity)] at hdown
      calc x.value ≤ (((0 : ℕ) : ℚ) + 1 / 2) * 2 ^ (-1074 : ℤ) := hdown
        _ = 2 ^ (-1075 : ℤ) := by
          rw [show (-1075 : ℤ) = -1074 - 1 by norm_num, zpow_sub_one₀ (by norm_num),
            Nat.cast_zero, zero_add, one_div, mul_comm]

/-- The lower end of a neighbourhood is two quarters of the last bit at least, and more if the end
belongs to it. -/
theorem lower_bounds {b : Binary} (hzero : b.mantissa ≠ 0) {lower : ℕ}
    (hlower : (Decimal.Neighbourhood.ofBinary b).lower = lower) :
    2 ≤ lower ∧ (b.mantissa % 2 = 0 → 3 ≤ lower) := by
  subst hlower
  show 2 ≤ (if b.mantissa = twoTo 52 ∧ b.exponent ≠ -1074 then 4 * b.mantissa - 1
    else 4 * b.mantissa - 2) ∧ (b.mantissa % 2 = 0 → 3 ≤ (if b.mantissa = twoTo 52 ∧
      b.exponent ≠ -1074 then 4 * b.mantissa - 1 else 4 * b.mantissa - 2))
  split <;> omega

/-- Numbers of a neighbourhood are not below its lower end, counted in quarters of the least
double. -/
theorem le_of_contains {b : Binary} (hb : IsCanonical b.mantissa b.exponent) {v : ℚ}
    (hv : (Decimal.Neighbourhood.ofBinary b).Contains v) {k : ℕ}
    (hk : k ≤ (Decimal.Neighbourhood.ofBinary b).lower) : (k : ℚ) * 2 ^ (-1076 : ℤ) ≤ v := by
  have hlower : (k : ℚ) ≤ (Decimal.Neighbourhood.ofBinary b).lower := by exact_mod_cast hk
  have hunit : (2 : ℚ) ^ (-1076 : ℤ) ≤ 2 ^ (b.exponent - 2) :=
    zpow_le_zpow_right₀ (by norm_num) (by have := hb.least; omega)
  exact (mul_le_mul hlower hunit (by positivity) (by positivity)).trans hv.bounds.1

/-- **A fraction in the neighbourhood of a double is rounded to it.** -/
theorem nearest_eq_of_contains (hnum : 0 < x.num) (hden : 0 < x.den) (negative : Bool) {b : Binary}
    (hb : IsCanonical b.mantissa b.exponent) (hzero : b.mantissa ≠ 0)
    (hx : (Decimal.Neighbourhood.ofBinary b).Contains x.value) :
    (x.nearest negative).magnitude = b.magnitude := by
  obtain ⟨-, hcanonical, hcontains, hlost⟩ := contains_nearest hnum hden negative
  refine Decimal.Neighbourhood.eq_of_contains hcanonical hb (hcontains fun hnone => ?_) hx
  -- half the least double is in no neighbourhood but at the end of one that is open
  have hsmall := hlost hnone
  have hhalf : (2 : ℚ) ^ (-1075 : ℤ) = 2 * 2 ^ (-1076 : ℤ) := by
    rw [show (-1075 : ℤ) = -1076 + 1 by norm_num, zpow_add_one₀ (by norm_num), mul_comm]
  have hpos : (0 : ℚ) < 2 ^ (-1076 : ℤ) := by positivity
  obtain ⟨htwo, hthree⟩ := lower_bounds hzero rfl
  have hend : x.value = (Decimal.Neighbourhood.ofBinary b).lower * 2 ^ (b.exponent - 2) := by
    refine le_antisymm ?_ hx.bounds.1
    have hunit : (2 : ℚ) ^ (-1076 : ℤ) ≤ 2 ^ (b.exponent - 2) :=
      zpow_le_zpow_right₀ (by norm_num) (by have := hb.least; omega)
    calc x.value ≤ 2 * 2 ^ (-1076 : ℤ) := hhalf ▸ hsmall
      _ ≤ (Decimal.Neighbourhood.ofBinary b).lower * 2 ^ (b.exponent - 2) :=
        mul_le_mul (by exact_mod_cast htwo) hunit hpos.le (by positivity)
  have hclosed : decide (b.mantissa % 2 = 0) = true := hx.closed_of_eq (.inl hend)
  have hbeyond := le_of_contains hb hx (hthree (of_decide_eq_true hclosed))
  rw [hhalf] at hsmall
  generalize (2 : ℚ) ^ (-1076 : ℤ) = least at *
  push_cast at hbeyond
  linarith

@[simp] theorem value_ofUnits (n : Nat) (e : Int) : (ofUnits n e).value = n * 10 ^ e := by
  unfold ofUnits value
  split
  · rename_i he
    rw [zpow_of_nonneg 10 he, tenTo_eq]
    push_cast
    rw [div_one]
  · rename_i he
    rw [zpow_of_neg 10 (not_le.mp he), tenTo_eq]
    push_cast
    rfl

theorem ofUnits_pos {n : Nat} (hn : n ≠ 0) (e : Int) :
    0 < (ofUnits n e).num ∧ 0 < (ofUnits n e).den := by
  unfold ofUnits
  split
  · exact ⟨Nat.mul_pos (Nat.pos_of_ne_zero hn) (tenTo_pos _), Nat.one_pos⟩
  · exact ⟨Nat.pos_of_ne_zero hn, tenTo_pos _⟩

end Fraction

namespace Numeral

/-! ## (3) Doubles from digits -/

section Digits

variable {x : Float} {b : Binary} {n count : Nat} {e : Int}

/-- The numbers that denote a double other than zero are of moderate size. -/
theorem bounds_of_contains (hb : IsCanonical b.mantissa b.exponent) (hrange : b.exponent ≤ 971)
    (hzero : b.mantissa ≠ 0) {v : ℚ} (hv : (Decimal.Neighbourhood.ofBinary b).Contains v) :
    (10 : ℚ) ^ (-400 : ℤ) < v ∧ v < 10 ^ (400 : ℤ) := by
  constructor
  · have hpowers : (2 : ℚ) ^ 1076 < 10 ^ 400 := by
      exact_mod_cast (by decide +kernel : (2 : ℕ) ^ 1076 < 10 ^ 400)
    calc (10 : ℚ) ^ (-400 : ℤ) < 2 ^ (-1076 : ℤ) := by
          rw [zpow_neg, zpow_neg]
          exact inv_strictAnti₀ (by positivity) (by exact_mod_cast hpowers)
      _ = (1 : ℕ) * 2 ^ (-1076 : ℤ) := by rw [Nat.cast_one, one_mul]
      _ ≤ v := Fraction.le_of_contains hb hv (by have := Fraction.lower_bounds hzero rfl; omega)
  · have hpowers : (2 : ℚ) ^ 1024 < 10 ^ 400 := by
      exact_mod_cast (by decide +kernel : (2 : ℕ) ^ 1024 < 10 ^ 400)
    have hupper : ((Decimal.Neighbourhood.ofBinary b).upper : ℚ) ≤ 2 ^ 55 := by
      have hsize := hb.size
      exact_mod_cast (show 4 * b.mantissa + 2 ≤ 2 ^ 55 by omega)
    calc v ≤ (Decimal.Neighbourhood.ofBinary b).upper * 2 ^ (b.exponent - 2) := hv.bounds.2
      _ ≤ 2 ^ 55 * 2 ^ (969 : ℤ) :=
        mul_le_mul hupper (zpow_le_zpow_right₀ (by norm_num) (by omega)) (by positivity)
          (by positivity)
      _ = 2 ^ 1024 := by
        rw [← zpow_natCast, ← zpow_natCast, ← zpow_add₀ (by norm_num)]
        norm_num
      _ < 10 ^ (400 : ℤ) := by exact_mod_cast hpowers

/-- Where units of a power of ten are of moderate size, so is the power. -/
theorem power_bounds (hn : n < 10 ^ count) (hzero : n ≠ 0)
    (hlow : (10 : ℚ) ^ (-400 : ℤ) < n * 10 ^ e) (hhigh : (n : ℚ) * 10 ^ e < 10 ^ (400 : ℤ)) :
    ¬ e + count < -400 ∧ ¬ 400 < e := by
  have hpower : (0 : ℚ) < 10 ^ e := by positivity
  constructor
  · intro hsmall
    have hn : (n : ℚ) < 10 ^ count := by exact_mod_cast hn
    refine lt_irrefl _ (hlow.trans (calc
      (n : ℚ) * 10 ^ e < 10 ^ count * 10 ^ e := mul_lt_mul_of_pos_right hn hpower
      _ = 10 ^ (e + count) := by rw [zpow_add₀ (by norm_num), zpow_natCast, mul_comm]
      _ ≤ 10 ^ (-400 : ℤ) := zpow_le_zpow_right₀ (by norm_num) (by omega)))
  · intro hlarge
    have hone : (1 : ℚ) ≤ n := by exact_mod_cast Nat.pos_of_ne_zero hzero
    refine lt_irrefl _ (hhigh.trans_le (calc
      (10 : ℚ) ^ (400 : ℤ) ≤ 10 ^ e := zpow_le_zpow_right₀ (by norm_num) hlarge.le
      _ ≤ n * 10 ^ e := le_mul_of_one_le_left hpower.le hone))

/-- **Digits that denote a double** are read as it. -/
theorem ofUnits_eq (hx : Binary.ofFloat? x = some b) (hn : n < 10 ^ count)
    (hv : Denotes b (n * 10 ^ e)) : ofUnits b.negative n count e = x := by
  obtain ⟨hcanonical, hrange⟩ := Double.isCanonical_of_ofFloat? hx
  unfold Denotes at hv
  split at hv
  · rename_i hzero
    -- only digits that are all zero denote a zero, and the sign is kept apart from them
    have hpower : (10 : ℚ) ^ e ≠ 0 := by positivity
    have hn : n = 0 := by exact_mod_cast (mul_eq_zero.mp hv).resolve_right hpower
    rw [ofUnits, if_pos (.inl hn)]
    have hrange : 0 < 2047 * 2 ^ 52 := by norm_num
    have hparts := Binary.ofFloat?_ofFields b.negative hrange
    refine Double.eq_of_magnitude hparts hx rfl ?_
    rw [Binary.magnitude_eq_zero_iff.mpr hzero]
    exact Binary.magnitude_eq_zero_iff.mpr rfl
  · rename_i hzero
    have hpos := pos_of_contains hzero hv
    have hnzero : n ≠ 0 := by
      rintro rfl
      rw [Nat.cast_zero, zero_mul] at hpos
      exact lt_irrefl _ hpos
    -- neither shortcut is taken, for both are for numbers that denote no double
    obtain ⟨hlow, hhigh⟩ := bounds_of_contains hcanonical hrange hzero hv
    obtain ⟨hcount, he⟩ := power_bounds hn hnzero hlow hhigh
    rw [ofUnits, if_neg (not_or.mpr ⟨hnzero, hcount⟩), if_neg he]
    obtain ⟨hnum, hden⟩ := Fraction.ofUnits_pos hnzero e
    have hcontains : (Decimal.Neighbourhood.ofBinary b).Contains (Fraction.ofUnits n e).value := by
      rwa [Fraction.value_ofUnits]
    have hmagnitude :=
      Fraction.nearest_eq_of_contains hnum hden b.negative hcanonical hzero hcontains
    obtain ⟨hsign, hparts, -⟩ := Fraction.contains_nearest hnum hden b.negative
    -- the nearest double has the size of `b`, so packing its parts loses nothing
    have hreaches : ((Fraction.ofUnits n e).nearest b.negative).reaches 1024 = false := by
      rw [← Bool.not_eq_true, Binary.reaches_iff, hmagnitude, not_le]
      have hbound := Double.magnitude_lt_bound hx
      exact hbound.trans (sub_lt_self _ (by positivity))
    obtain ⟨b', hb', hsign', hvalue⟩ :=
      Binary.exists_ofFloat?_toFloat hparts.size hparts.least hreaches
    exact Double.eq_of_magnitude hb' hx (hsign'.trans hsign) (hvalue.trans hmagnitude)

end Digits

/-! ## (4) Texts -/

section Text

variable {cs ds es : List Char} {v : ℚ}

/-- Digits are what a text of digits begins with, up to a character that is none. -/
theorem split_digits (hds : AreDigits ds) {t : List Char} (ht : ∀ c ∈ t.head?, c.isDigit = false) :
    (ds ++ t).takeWhile Char.isDigit = ds ∧ (ds ++ t).dropWhile Char.isDigit = t := by
  rw [List.takeWhile_append_of_pos hds, List.dropWhile_append_of_pos hds]
  cases t with
  | nil => simp
  | cons c t =>
    have hc : c.isDigit = false := ht c rfl
    simp [hc]

/-- The number that digits stand for has no more digits. -/
theorem digitsValue_lt (hds : AreDigits ds) : digitsValue ds < 10 ^ ds.length := by
  induction ds with
  | nil => exact Nat.one_pos
  | cons c ds ih =>
    obtain ⟨hc, hrest⟩ := List.forall_mem_cons.mp hds
    have hrest := ih hrest
    have hfirst : digitsValue [c] = c.toNat - 48 := Nat.zero_add _
    have hdigit : 48 ≤ c.toNat ∧ c.toNat ≤ 57 := Char.isDigit_iff_toNat.mp hc
    have hsplit := digitsValue_append [c] ds
    rw [List.singleton_append, hfirst] at hsplit
    rw [hsplit, List.length_cons, Nat.pow_succ]
    have hnine : (c.toNat - 48) * 10 ^ ds.length ≤ 9 * 10 ^ ds.length :=
      Nat.mul_le_mul_right _ (by omega)
    omega

/-- **Digits with a point among them** and a power of ten behind them are read as the double nearest
to what they stand for. -/
theorem ofDigits?_of_isFixed (h : IsFixed cs v) {t : List Char} {p : Int}
    (hpower : powerOf? t = some p) (ht : ∀ c ∈ t.head?, c.isDigit = false ∧ c ≠ '.') :
    ∃ n count e, (∀ negative, ofDigits? negative (cs ++ t) = some (ofUnits negative n count e)) ∧
      n < 10 ^ count ∧ (n : ℚ) * 10 ^ e = v * 10 ^ p := by
  have hdigit : ∀ c ∈ t.head?, c.isDigit = false := fun c hc => (ht c hc).1
  cases h with
  | whole hds hne =>
    obtain ⟨hwhole, hrest⟩ := split_digits hds hdigit
    have hplaces : readPlaces t = ([], t) := by
      unfold readPlaces
      split
      · exact absurd rfl (ht '.' rfl).2
      · rfl
    refine ⟨_, _, p, fun negative => ?_, digitsValue_lt hds, rfl⟩
    unfold ofDigits?
    simp [hwhole, hrest, hplaces, hpower, hne, digitsValue]
  | @point ds es hds hne hes =>
    obtain ⟨hwhole, hrest⟩ := split_digits (t := '.' :: es ++ t) hds (by simp)
    obtain ⟨hplaces, hend⟩ := split_digits hes hdigit
    refine ⟨_, _, p - es.length, fun negative => ?_, digitsValue_lt (hds.append hes), ?_⟩
    · unfold ofDigits?
      simp only [List.append_assoc, hwhole, hrest]
      simp [readPlaces, hplaces, hend, hpower, hne, digitsValue]
    · rw [mul_assoc, ← zpow_add₀ (by norm_num)]
      congr 2
      ring

/-- The power of ten behind an `e`. -/
theorem powerOf?_of_digits (hes : AreDigits es) (hne : es ≠ []) :
    powerOf? ('e' :: '+' :: es) = some (digitsValue es : Int) ∧
      powerOf? ('e' :: '-' :: es) = some (-digitsValue es : Int) := by
  have hall : es.all Char.isDigit = true := List.all_eq_true.mpr hes
  constructor <;> simp [powerOf?, readSign, hne, hall, digitsValue]

/-- **A numeral is read as the double nearest to what it stands for.** -/
theorem ofDigits?_of_isNumeral (h : IsNumeral cs v) :
    ∃ n count e, (∀ negative, ofDigits? negative cs = some (ofUnits negative n count e)) ∧
      n < 10 ^ count ∧ (n : ℚ) * 10 ^ e = v := by
  cases h with
  | fixed h =>
    obtain ⟨n, count, e, hread, hn, hv⟩ := ofDigits?_of_isFixed h (t := []) rfl nofun
    rw [List.append_nil] at hread
    exact ⟨n, count, e, hread, hn, hv.trans (mul_one v)⟩
  | raised h hes hne =>
    exact ofDigits?_of_isFixed h (powerOf?_of_digits hes hne).1 (by simp)
  | lowered h hes hne =>
    exact ofDigits?_of_isFixed h (powerOf?_of_digits hes hne).2 (by simp)

/-- A **plain character** is ASCII, no space and no underscore. -/
def IsPlainChar (c : Char) : Prop := c.toNat < 128 ∧ isSpace c = false ∧ c ≠ '_'

theorem isPlainChar_of_isDigit {c : Char} (hc : c.isDigit = true) : IsPlainChar c := by
  have hdigit : 48 ≤ c.toNat ∧ c.toNat ≤ 57 := Char.isDigit_iff_toNat.mp hc
  refine ⟨by omega, ?_, fun h => absurd hc (h ▸ by decide)⟩
  have hspace : c ≠ ' ' := fun h => absurd hc (h ▸ by decide)
  simp only [isSpace, beq_eq_false_iff_ne.mpr hspace, Bool.false_or, Bool.and_eq_false_iff,
    decide_eq_false_iff_not]
  omega

/-- Without underscores there is nothing to join. -/
theorem joinDigits?_of_ne (h : ∀ c ∈ cs, c ≠ '_') (afterDigit : Bool) :
    joinDigits? afterDigit cs = some cs := by
  induction cs generalizing afterDigit with
  | nil => rfl
  | cons c cs ih =>
    obtain ⟨hc, hrest⟩ := List.forall_mem_cons.mp h
    rw [joinDigits?, if_neg hc, ih hrest, Option.map_some]

/-- Without spaces there is nothing to trim. -/
theorem trimSpaces_of_ne (h : ∀ c ∈ cs, isSpace c = false) : trimSpaces cs = cs := by
  have hdrop {ds : List Char} (hds : ∀ c ∈ ds, isSpace c = false) : ds.dropWhile isSpace = ds := by
    cases ds with
    | nil => rfl
    | cons d ds => rw [List.dropWhile_cons, hds d List.mem_cons_self]; rfl
  rw [trimSpaces, hdrop h, hdrop fun c hc => h c (List.mem_reverse.mp hc), List.reverse_reverse]

/-- A text of plain characters is read as it stands. -/
theorem read?_of_isPlainChar {s : String} {negative : Bool} {t : List Char}
    (hs : ∀ c ∈ s.toList, IsPlainChar c) (hsign : readSign s.toList = (negative, t)) :
    read? s = (ofDigits? negative t).or (ofWord? negative t) := by
  have hascii : s.toList.map asciiForm = s.toList :=
    (List.map_congr_left fun c hc => if_pos (hs c hc).1).trans (List.map_id _)
  unfold read?
  rw [hascii, joinDigits?_of_ne fun c hc => (hs c hc).2.2, Option.bind_some,
    trimSpaces_of_ne fun c hc => (hs c hc).2.1, hsign]

/-- Behind a minus sign, or none, stands a body that does not begin like a sign. -/
theorem readSign_signText {negative : Bool} {c : Char} {t : List Char} (hc : c ≠ '-' ∧ c ≠ '+') :
    readSign (signText negative ++ c :: t) = (negative, c :: t) := by
  cases negative with
  | true => rfl
  | false =>
    unfold signText readSign
    split
    · rename_i h
      exact absurd (List.cons.inj h).1 hc.1
    · rename_i h
      exact absurd (List.cons.inj h).1 hc.2
    · rfl

end Text

/-- **Reading undoes writing**: the plain text of a double is read as that double. -/
theorem read?_plain (x : Float) : read? (plain x) = some x := by
  obtain ⟨negative, t, htext, hbody⟩ := exists_body x
  have hsign : ∀ c ∈ signText negative, IsPlainChar c := by
    cases negative <;> simp [signText, IsPlainChar, isSpace]
  have hplain (ht : ∀ c ∈ t, IsPlainChar c) : ∀ c ∈ (plain x).toList, IsPlainChar c :=
    htext ▸ List.forall_mem_append.mpr ⟨hsign, ht⟩
  cases hbody with
  | undefined hx =>
    have hread : readSign (plain x).toList = (false, ['n', 'a', 'n']) := htext ▸ rfl
    rw [read?_of_isPlainChar (hplain (by simp [IsPlainChar, isSpace])) hread]
    exact congrArg some (Double.eq_of_parts (hx ▸ rfl))
  | @infinite s hx =>
    have hread : readSign (plain x).toList = (Double.isNegative s, ['i', 'n', 'f']) :=
      htext ▸ readSign_signText ⟨by decide, by decide⟩
    rw [read?_of_isPlainChar (hplain (by simp [IsPlainChar, isSpace])) hread]
    refine congrArg some (Double.eq_of_parts (hx ▸ ?_))
    cases s <;> rfl
  | @number b t v hb ht hv =>
    obtain ⟨c, t', rfl, hc⟩ := ht.exists_cons
    have hread : readSign (plain x).toList = (b.negative, c :: t') :=
      htext ▸ readSign_signText ⟨fun h => absurd hc (h ▸ by decide),
        fun h => absurd hc (h ▸ by decide)⟩
    have hmark : ∀ c ∈ ['.', 'e', '+', '-'], IsPlainChar c := by simp [IsPlainChar, isSpace]
    have hchars : ∀ d ∈ c :: t', IsPlainChar d := fun d hd =>
      (ht.isDigit_or_mem d hd).elim isPlainChar_of_isDigit (hmark d)
    obtain ⟨n, count, e, hdigits, hn, hvalue⟩ := ofDigits?_of_isNumeral ht
    rw [read?_of_isPlainChar (hplain hchars) hread, hdigits, Option.some_or]
    exact congrArg some (ofUnits_eq hb hn (hvalue ▸ hv))

/-- **Doubles with the same plain text are the same.** -/
theorem plain_injective : Function.Injective plain := fun x y htext =>
  Option.some.inj ((read?_plain x).symm.trans (htext ▸ read?_plain y))

end Numeral

end NewtonRaphson
