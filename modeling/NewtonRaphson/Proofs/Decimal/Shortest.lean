import NewtonRaphson.Proofs.Decimal.Value
import NewtonRaphson.Proofs.Double.Order

/-! # Shortest decimals

The shortest decimal of a double is looked for in the neighbourhood of the double, on finer and
finer grids. It is found there, and no two doubles share a neighbourhood.

* **`Fraction.ten_zpow_magnitude_le`** — the estimate of the leading digit is never too high.
* **`Decimal.Neighbourhood.Contains`** — the numbers of a neighbourhood.
* **`Decimal.contains_shortest`** — the shortest decimal is one of them.
* **`Decimal.Neighbourhood.eq_of_contains`** — the neighbourhoods of two doubles have no number in
  common. -/

namespace NewtonRaphson

/-- The nearest number to a quotient is half a divisor away at most. -/
theorem roundHalfEven_bounds (n : Nat) {d : Nat} (hd : 0 < d) :
    2 * (roundHalfEven n d * d) ≤ 2 * n + d ∧ 2 * n ≤ 2 * (roundHalfEven n d * d) + d := by
  have hn : d * (n / d) + n % d = n := Nat.div_add_mod n d
  have hr : n % d < d := Nat.mod_lt n hd
  unfold roundHalfEven
  dsimp only
  generalize n / d = q at *
  generalize n % d = rest at *
  have hnext : (q + 1) * d = d * q + d := by ring
  have hsame : q * d = d * q := Nat.mul_comm q d
  split
  · omega
  · split
    · omega
    · rcases Nat.mod_two_eq_zero_or_one q with hq | hq <;> rw [hq]
      · rw [Nat.add_zero]
        omega
      · omega

/-! ## (1) The leading digit -/

/-- A power of ten is at most five times a power of two, if the exponents are in the ratio of a good
estimate of the logarithm. -/
theorem ten_zpow_le {a b : ℕ} (hb : b ≠ 0) (hlow : 2 ^ b ≤ 10 ^ a) (hhigh : 10 ^ a ≤ 2 ^ (b + 1))
    {g l : ℤ} (hg : g * b ≤ l * a) (hl : l ≤ b) : (10 : ℚ) ^ g ≤ 5 * 2 ^ l := by
  have hpower : ((10 : ℚ) ^ a) ^ l ≤ 5 ^ b * (2 ^ b) ^ l := by
    have hlow : (2 : ℚ) ^ b ≤ 10 ^ a := by exact_mod_cast hlow
    have hhigh : (10 : ℚ) ^ a ≤ 2 ^ (b + 1) := by exact_mod_cast hhigh
    rcases le_or_gt 0 l with hnonneg | hneg
    · obtain ⟨k, rfl⟩ := Int.eq_ofNat_of_zero_le hnonneg
      simp only [zpow_natCast]
      calc ((10 : ℚ) ^ a) ^ k ≤ (2 ^ (b + 1)) ^ k := pow_le_pow_left₀ (by positivity) hhigh k
        _ = 2 ^ k * (2 ^ b) ^ k := by rw [pow_succ', mul_pow]
        _ ≤ 5 ^ b * (2 ^ b) ^ k := by
          refine mul_le_mul_of_nonneg_right ?_ (by positivity)
          calc (2 : ℚ) ^ k ≤ 2 ^ b := pow_le_pow_right₀ (by norm_num) (by omega)
            _ ≤ 5 ^ b := pow_le_pow_left₀ (by norm_num) (by norm_num) b
    · have hinverse : ((10 : ℚ) ^ a) ^ l ≤ (2 ^ b) ^ l := by
        obtain ⟨k, rfl⟩ : ∃ k : ℕ, l = -k := ⟨(-l).toNat, by omega⟩
        rw [zpow_neg, zpow_neg, zpow_natCast, zpow_natCast]
        exact inv_anti₀ (by positivity) (pow_le_pow_left₀ (by positivity) hlow k)
      exact hinverse.trans (le_mul_of_one_le_left (by positivity) (one_le_pow₀ (by norm_num)))
  rw [← pow_le_pow_iff_left₀ (by positivity) (by positivity) hb]
  calc ((10 : ℚ) ^ g) ^ b = 10 ^ (g * b) := by rw [zpow_mul, zpow_natCast]
    _ ≤ 10 ^ (l * a) := zpow_le_zpow_right₀ (by norm_num) hg
    _ = (10 ^ a) ^ l := by rw [mul_comm, zpow_mul, zpow_natCast]
    _ ≤ 5 ^ b * (2 ^ b) ^ l := hpower
    _ = (5 * 2 ^ l) ^ b := by
      rw [mul_pow, ← zpow_natCast (2 ^ l), ← zpow_mul, mul_comm l, zpow_mul, zpow_natCast]

namespace Fraction

variable {x : Fraction}

/-- The lengths of numerator and denominator give the value of a fraction up to a factor of two. -/
theorem two_zpow_le_value (hnum : 0 < x.num) (hden : 0 < x.den) :
    (2 : ℚ) ^ ((x.num.log2 : ℤ) - x.den.log2 - 1) ≤ x.value := by
  have hpos : (0 : ℚ) < x.den := by exact_mod_cast hden
  have hlow : (2 : ℚ) ^ x.num.log2 ≤ x.num := by exact_mod_cast Nat.log2_self_le (Nat.ne_of_gt hnum)
  have hhigh : (x.den : ℚ) ≤ 2 ^ (x.den.log2 + 1) := by
    exact_mod_cast (Nat.lt_log2_self (n := x.den)).le
  rw [value, le_div_iff₀ hpos]
  calc (2 : ℚ) ^ ((x.num.log2 : ℤ) - x.den.log2 - 1) * x.den
      ≤ 2 ^ ((x.num.log2 : ℤ) - x.den.log2 - 1) * 2 ^ (x.den.log2 + 1) :=
        mul_le_mul_of_nonneg_left hhigh (by positivity)
    _ = 2 ^ x.num.log2 := by
        rw [← zpow_natCast, ← zpow_natCast, ← zpow_add₀ (by norm_num)]
        congr 1
        push_cast
        ring
    _ ≤ x.num := hlow

/-- **The leading digit** of a fraction does not stand at a lower place than it is estimated to. -/
theorem ten_zpow_magnitude_le (hnum : 0 < x.num) (hden : 0 < x.den)
    (hsize : (x.num.log2 : ℤ) - x.den.log2 ≤ 100000) : (10 : ℚ) ^ x.magnitude ≤ x.value := by
  have hbelow (e : Int) : ¬ x.below e = true ↔ (10 : ℚ) ^ e ≤ x.value := by
    rw [below_iff hden, not_lt]
  unfold magnitude
  dsimp only
  generalize hguess : ((x.num.log2 : ℤ) - x.den.log2) * 30103 / 100000 = guess
  split
  · -- the estimate is too high by one at most
    have hratio : guess * (100000 : ℕ) ≤ ((x.num.log2 : ℤ) - x.den.log2) * (30103 : ℕ) := by omega
    have hestimate := ten_zpow_le (a := 30103) (b :=
      100000) (by decide) (by decide +kernel) (by decide +kernel) hratio hsize
    have hstep : (10 : ℚ) ^ (guess - 1) ≤ 2 ^ ((x.num.log2 : ℤ) - x.den.log2 - 1) := by
      rw [zpow_sub_one₀ (by norm_num), zpow_sub_one₀ (by norm_num)]
      linarith
    exact hstep.trans (two_zpow_le_value hnum hden)
  · rename_i hguess
    split
    · exact (hbelow guess).mp hguess
    · rename_i hnext
      exact (hbelow (guess + 1)).mp hnext

/-- Rounding a fraction moves it by one half at most. -/
theorem roundHalfEven_value_bounds (hden : 0 < x.den) :
    (roundHalfEven x.num x.den : ℚ) ≤ x.value + 1 / 2 ∧
      x.value ≤ roundHalfEven x.num x.den + 1 / 2 := by
  have hpos : (0 : ℚ) < x.den := by exact_mod_cast hden
  have hnum : x.value * x.den = x.num := div_mul_cancel₀ _ hpos.ne'
  obtain ⟨hup, hdown⟩ := roundHalfEven_bounds x.num hden
  have hup : 2 * (roundHalfEven x.num x.den * x.den : ℚ) ≤ 2 * x.num + x.den := by
    exact_mod_cast hup
  have hdown : 2 * (x.num : ℚ) ≤ 2 * (roundHalfEven x.num x.den * x.den) + x.den := by
    exact_mod_cast hdown
  constructor <;> refine le_of_mul_le_mul_right ?_ hpos <;> linarith

/-! ## (2) Neighbourhoods -/

section Scaled

variable (m n k : Nat) (e unit : Int)

/-- The denominator of a number in units of a power of ten does not depend on its mantissa. -/
theorem den_inUnitsOf_ofBinary :
    ((ofBinary m e).inUnitsOf unit).den = ((ofBinary n e).inUnitsOf unit).den := by
  unfold ofBinary inUnitsOf
  split <;> split <;> rfl

/-- So multiples of the unit are compared with the number by the numerator. -/
theorem num_inUnitsOf_le_iff :
    ((ofBinary m e).inUnitsOf unit).num ≤ k * ((ofBinary n e).inUnitsOf unit).den ↔
      (m : ℚ) * 2 ^ e ≤ k * 10 ^ unit := by
  have hden : (0 : ℚ) < ((ofBinary m e).inUnitsOf unit).den := by
    exact_mod_cast den_inUnitsOf_pos (den_ofBinary_pos m e) unit
  have hunit : (0 : ℚ) < 10 ^ unit := by positivity
  rw [den_inUnitsOf_ofBinary n m, ← div_le_iff₀ hunit, ← value_ofBinary, ← value_inUnitsOf, value,
    div_le_iff₀ hden]
  exact_mod_cast Iff.rfl

theorem le_num_inUnitsOf_iff :
    k * ((ofBinary n e).inUnitsOf unit).den ≤ ((ofBinary m e).inUnitsOf unit).num ↔
      (k : ℚ) * 10 ^ unit ≤ m * 2 ^ e := by
  have hden : (0 : ℚ) < ((ofBinary m e).inUnitsOf unit).den := by
    exact_mod_cast den_inUnitsOf_pos (den_ofBinary_pos m e) unit
  have hunit : (0 : ℚ) < 10 ^ unit := by positivity
  rw [den_inUnitsOf_ofBinary n m, ← le_div_iff₀ hunit, ← value_ofBinary, ← value_inUnitsOf, value,
    le_div_iff₀ hden]
  exact_mod_cast Iff.rfl

theorem num_inUnitsOf_lt_iff :
    ((ofBinary m e).inUnitsOf unit).num < k * ((ofBinary n e).inUnitsOf unit).den ↔
      (m : ℚ) * 2 ^ e < k * 10 ^ unit := by
  rw [← Nat.not_le, le_num_inUnitsOf_iff, not_le]

theorem lt_num_inUnitsOf_iff :
    k * ((ofBinary n e).inUnitsOf unit).den < ((ofBinary m e).inUnitsOf unit).num ↔
      (k : ℚ) * 10 ^ unit < m * 2 ^ e := by
  rw [← Nat.not_le, num_inUnitsOf_le_iff, not_le]

end Scaled

end Fraction

namespace Decimal

namespace Neighbourhood

/-- The numbers that a neighbourhood **contains**. -/
def Contains (h : Neighbourhood) (v : ℚ) : Prop :=
  if h.closed then (h.lower : ℚ) * 2 ^ h.exponent ≤ v ∧ v ≤ h.upper * 2 ^ h.exponent
  else (h.lower : ℚ) * 2 ^ h.exponent < v ∧ v < h.upper * 2 ^ h.exponent

variable {h : Neighbourhood} {unit : Int} {v : ℚ}

theorem contains_of_lt (hlow : (h.lower : ℚ) * 2 ^ h.exponent < v)
    (hhigh : v < h.upper * 2 ^ h.exponent) : h.Contains v := by
  unfold Contains
  split
  · exact ⟨hlow.le, hhigh.le⟩
  · exact ⟨hlow, hhigh⟩

theorem Contains.bounds (hv : h.Contains v) :
    (h.lower : ℚ) * 2 ^ h.exponent ≤ v ∧ v ≤ h.upper * 2 ^ h.exponent := by
  unfold Contains at hv
  split at hv
  · exact hv
  · exact ⟨hv.1.le, hv.2.le⟩

/-- An end that belongs to a neighbourhood shows that both do. -/
theorem Contains.closed_of_eq (hv : h.Contains v)
    (hend : v = h.lower * 2 ^ h.exponent ∨ v = h.upper * 2 ^ h.exponent) : h.closed = true := by
  by_contra hopen
  rw [Contains, if_neg hopen] at hv
  exact hend.elim hv.1.ne' hv.2.ne

/-- A number of the neighbourhood's scale in units of a power of ten. -/
def scaled (h : Neighbourhood) (unit : Int) (n : Nat) : Fraction :=
  (Fraction.ofBinary n h.exponent).inUnitsOf unit

/-- Whether the neighbourhood holds a multiple of a unit, counted in the denominator that all its
numbers have. -/
def holds (h : Neighbourhood) (unit : Int) (k : Nat) : Bool :=
  if h.closed then
    (h.scaled unit h.lower).num ≤ k * (h.scaled unit h.centre).den &&
      k * (h.scaled unit h.centre).den ≤ (h.scaled unit h.upper).num
  else
    (h.scaled unit h.lower).num < k * (h.scaled unit h.centre).den &&
      k * (h.scaled unit h.centre).den < (h.scaled unit h.upper).num

/-- The multiple nearest to the centre. -/
def nearest (h : Neighbourhood) (unit : Int) : Nat :=
  roundHalfEven (h.scaled unit h.centre).num (h.scaled unit h.centre).den

/-- The multiple on the other side of the centre. -/
def other (h : Neighbourhood) (unit : Int) : Nat :=
  let floor := (h.scaled unit h.centre).num / (h.scaled unit h.centre).den
  if h.nearest unit = floor then floor + 1 else floor

/-- Two multiples of the unit are looked at. -/
theorem gridPoint?_eq : h.gridPoint? unit =
    if h.holds unit (h.nearest unit) then some (h.nearest unit)
    else if h.holds unit (h.other unit) then some (h.other unit) else none := rfl

theorem holds_iff (k : Nat) : h.holds unit k = true ↔ h.Contains (k * 10 ^ unit) := by
  unfold holds Contains scaled
  split
  · rw [Bool.and_eq_true, decide_eq_true_iff, decide_eq_true_iff, Fraction.num_inUnitsOf_le_iff,
      Fraction.le_num_inUnitsOf_iff]
  · rw [Bool.and_eq_true, decide_eq_true_iff, decide_eq_true_iff, Fraction.num_inUnitsOf_lt_iff,
      Fraction.lt_num_inUnitsOf_iff]

/-- **The multiple that is found** is one that the neighbourhood contains. -/
theorem contains_of_gridPoint? {n : Nat} (hn : h.gridPoint? unit = some n) :
    h.Contains (n * 10 ^ unit) := by
  rw [gridPoint?_eq] at hn
  split at hn
  · rename_i hnearest
    rw [← Option.some.inj hn]
    exact (holds_iff _).mp hnearest
  · split at hn
    · rename_i hother
      rw [← Option.some.inj hn]
      exact (holds_iff _).mp hother
    · cases hn

/-- One is found if the nearest is contained. -/
theorem exists_gridPoint? (hnearest : h.Contains (h.nearest unit * 10 ^ unit)) :
    ∃ n, h.gridPoint? unit = some n := by
  rw [gridPoint?_eq, if_pos ((holds_iff _).mpr hnearest)]
  exact ⟨_, rfl⟩

/-- The nearest multiple is half a unit away at most. -/
theorem nearest_bounds (h : Neighbourhood) (unit : Int) :
    (h.nearest unit : ℚ) * 10 ^ unit ≤ h.centre * 2 ^ h.exponent + 10 ^ unit / 2 ∧
      h.centre * 2 ^ h.exponent ≤ (h.nearest unit : ℚ) * 10 ^ unit + 10 ^ unit / 2 := by
  have hunit : (0 : ℚ) < 10 ^ unit := by positivity
  have hvalue : (h.centre : ℚ) * 2 ^ h.exponent = (h.scaled unit h.centre).value * 10 ^ unit := by
    rw [scaled, Fraction.value_inUnitsOf, Fraction.value_ofBinary, div_mul_cancel₀ _ hunit.ne']
  obtain ⟨hup, hdown⟩ := Fraction.roundHalfEven_value_bounds (x := h.scaled unit h.centre)
    (Fraction.den_inUnitsOf_pos (Fraction.den_ofBinary_pos _ _) unit)
  have hup := mul_le_mul_of_nonneg_right hup hunit.le
  have hdown := mul_le_mul_of_nonneg_right hdown hunit.le
  rw [hvalue, nearest]
  constructor <;> linarith

end Neighbourhood

/-! ## (3) The neighbourhood of a double -/

section Double

open Double (IsCanonical)

variable {b : Binary}

/-- A number in quarters of its last bit. -/
theorem magnitude_eq_quarters (b : Binary) :
    b.magnitude = (4 * b.mantissa : Nat) * 2 ^ (b.exponent - 2) := by
  rw [Binary.magnitude, zpow_sub₀ (by norm_num)]
  push_cast
  ring

/-- Numbers near enough to a number of 53 bits are in its neighbourhood. -/
theorem contains_ofBinary {v : ℚ} (hb : 0 < b.mantissa) (hsize : b.mantissa < 2 ^ 53)
    (hlow : b.magnitude - b.magnitude / 2 ^ 54 < v)
    (hhigh : v < b.magnitude + b.magnitude / 2 ^ 54) : (Neighbourhood.ofBinary b).Contains v := by
  rw [magnitude_eq_quarters] at hlow hhigh
  push_cast at hlow hhigh
  have hunit : (0 : ℚ) < 2 ^ (b.exponent - 2) := by positivity
  have hmantissa : (b.mantissa : ℚ) < 2 ^ 53 := by exact_mod_cast hsize
  have hwidth : (4 * b.mantissa * 2 ^ (b.exponent - 2) : ℚ) / 2 ^ 54 <
      2 * 2 ^ (b.exponent - 2) := by
    rw [div_lt_iff₀ (by positivity)]
    nlinarith
  refine Neighbourhood.contains_of_lt ?_ (hhigh.trans ?_)
  · show ((if b.mantissa = twoTo 52 ∧ b.exponent ≠ -1074 then 4 * b.mantissa - 1
        else 4 * b.mantissa - 2 : Nat) : ℚ) * 2 ^ (b.exponent - 2) < v
    refine lt_of_le_of_lt ?_ hlow
    split
    · rename_i hpower
      have hexact : (b.mantissa : ℚ) = 2 ^ 52 := by exact_mod_cast hpower.1
      rw [Nat.cast_sub (by omega)]
      push_cast
      rw [hexact]
      linarith
    · rw [Nat.cast_sub (by omega)]
      push_cast
      linarith
  · show _ < ((4 * b.mantissa + 2 : Nat) : ℚ) * 2 ^ (b.exponent - 2)
    push_cast
    linarith

/-- The leading digit of a double is estimated well enough. -/
theorem ten_zpow_top_le (hb : 0 < b.mantissa) (hsize : b.mantissa < 2 ^ 53)
    (hrange : b.exponent ≤ 971) :
    (10 : ℚ) ^ (Fraction.ofBinary b.mantissa b.exponent).magnitude ≤ b.magnitude := by
  have hnum : 0 < (Fraction.ofBinary b.mantissa b.exponent).num := by
    unfold Fraction.ofBinary
    split
    · exact Nat.mul_pos hb (twoTo_pos _)
    · exact hb
  have hlog : (Fraction.ofBinary b.mantissa b.exponent).num.log2 < 53 + b.exponent.toNat := by
    rw [Nat.log2_lt (Nat.ne_of_gt hnum), Nat.pow_add]
    unfold Fraction.ofBinary
    split
    · exact Nat.mul_lt_mul_of_pos_right hsize (Nat.two_pow_pos _)
    · exact hsize.trans_le (Nat.le_mul_of_pos_right _ (Nat.two_pow_pos _))
  have hplace := Fraction.ten_zpow_magnitude_le hnum (Fraction.den_ofBinary_pos _ _) (by omega)
  rwa [Fraction.value_ofBinary] at hplace

/-- With seventeen digits the nearest decimal is in the neighbourhood. -/
theorem contains_nearest (hb : 0 < b.mantissa) (hsize : b.mantissa < 2 ^ 53)
    (hrange : b.exponent ≤ 971) {unit : Int}
    (hunit : unit = (Fraction.ofBinary b.mantissa b.exponent).magnitude - (16 : ℕ)) :
    (Neighbourhood.ofBinary b).Contains ((Neighbourhood.ofBinary b).nearest unit * 10 ^ unit) := by
  obtain ⟨hup, hdown⟩ := (Neighbourhood.ofBinary b).nearest_bounds unit
  have hcentre : ((Neighbourhood.ofBinary b).centre : ℚ) * 2 ^ (Neighbourhood.ofBinary b).exponent =
      b.magnitude :=
    (magnitude_eq_quarters b).symm
  have hpositive : 0 < b.magnitude := by
    have hmantissa : (0 : ℚ) < b.mantissa := by exact_mod_cast hb
    unfold Binary.magnitude
    positivity
  have hstep : (10 : ℚ) ^ unit ≤ b.magnitude / 10 ^ 16 := by
    rw [hunit, zpow_sub₀ (by norm_num), zpow_natCast]
    exact div_le_div_of_nonneg_right (ten_zpow_top_le hb hsize hrange) (by positivity)
  rw [hcentre] at hup hdown
  have hnear : b.magnitude / 10 ^ 16 / 2 < b.magnitude / 2 ^ 54 := by
    rw [div_div]
    exact div_lt_div_of_pos_left hpositive (by norm_num) (by norm_num)
  exact contains_ofBinary hb hsize (by linarith) (by linarith)

/-- A shortest decimal is found on one of the grids. -/
theorem exists_shortest_eq (hb : 0 < b.mantissa) (hsize : b.mantissa < 2 ^ 53)
    (hrange : b.exponent ≤ 971) :
    ∃ n unit, (Neighbourhood.ofBinary b).gridPoint? unit = some n ∧
      shortest b = (ofUnits n unit).trim := by
  unfold shortest
  dsimp only
  generalize hfound : (List.range 17).findSome? (fun (k : Nat) =>
    ((Neighbourhood.ofBinary b).gridPoint?
      ((Fraction.ofBinary b.mantissa b.exponent).magnitude - k)).map fun n =>
      ofUnits n ((Fraction.ofBinary b.mantissa b.exponent).magnitude - k)) = found
  cases found with
  | none =>
    rw [List.findSome?_eq_none_iff] at hfound
    have hnone := hfound 16 (by decide)
    obtain ⟨n, hn⟩ := Neighbourhood.exists_gridPoint? (contains_nearest hb hsize hrange rfl)
    rw [hn] at hnone
    cases hnone
  | some d =>
    obtain ⟨k, -, hk⟩ := List.exists_of_findSome?_eq_some hfound
    obtain ⟨n, hn, rfl⟩ := Option.map_eq_some_iff.mp hk
    exact ⟨n, _, hn, rfl⟩

/-- **The shortest decimal** of a double is in its neighbourhood. -/
theorem contains_shortest (hb : 0 < b.mantissa) (hsize : b.mantissa < 2 ^ 53)
    (hrange : b.exponent ≤ 971) :
    (Neighbourhood.ofBinary b).Contains (shortest b).value ∧ AreDigits (shortest b).digits := by
  obtain ⟨n, unit, hn, hshortest⟩ := exists_shortest_eq hb hsize hrange
  rw [hshortest, value_trim, value_ofUnits]
  exact ⟨Neighbourhood.contains_of_gridPoint? hn, areDigits_trim (areDigits_ofUnits n unit)⟩

/-- The neighbourhood of a smaller number ends where that of a greater one begins, or before it; the
end that they may share belongs to one of them at most. -/
theorem upper_le_lower {a b : Binary} (ha : IsCanonical a.mantissa a.exponent)
    (hb : IsCanonical b.mantissa b.exponent) (h : a.magnitude < b.magnitude) :
    ((4 * a.mantissa + 2 : Nat) : ℚ) * 2 ^ (a.exponent - 2) <
      (Neighbourhood.ofBinary b).lower * 2 ^ (b.exponent - 2) ∨
      ((4 * a.mantissa + 2 : Nat) : ℚ) * 2 ^ (a.exponent - 2) =
          (Neighbourhood.ofBinary b).lower * 2 ^ (b.exponent - 2) ∧
        ¬ (a.mantissa % 2 = 0 ∧ b.mantissa % 2 = 0) := by
  have horder : a.exponent < b.exponent ∨ a.exponent = b.exponent ∧ a.mantissa < b.mantissa := by
    have hnot := (not_congr (hb.le_iff ha)).mpr (not_le.mpr h)
    omega
  have hlower : (Neighbourhood.ofBinary b).lower =
      if b.mantissa = 2 ^ 52 ∧ b.exponent ≠ -1074 then 4 * b.mantissa - 1
      else 4 * b.mantissa - 2 := rfl
  generalize (Neighbourhood.ofBinary b).lower = l at hlower ⊢
  -- both ends as multiples of the quarter that the smaller number has
  have hcompare {n : Nat} (hn : (l : ℚ) * 2 ^ (b.exponent - 2) = n * 2 ^ (a.exponent - 2))
      (hle : 4 * a.mantissa + 2 ≤ n) (hodd : 4 * a.mantissa + 2 = n →
        ¬ (a.mantissa % 2 = 0 ∧ b.mantissa % 2 = 0)) :
      ((4 * a.mantissa + 2 : Nat) : ℚ) * 2 ^ (a.exponent - 2) < l * 2 ^ (b.exponent - 2) ∨
        ((4 * a.mantissa + 2 : Nat) : ℚ) * 2 ^ (a.exponent - 2) = l * 2 ^ (b.exponent - 2) ∧
          ¬ (a.mantissa % 2 = 0 ∧ b.mantissa % 2 = 0) := by
    rw [hn]
    rcases Nat.lt_or_eq_of_le hle with hlt | heq
    · exact .inl ((Binary.mul_zpow_lt_iff _ _ _).mpr hlt)
    · exact .inr ⟨by rw [heq], hodd heq⟩
  rcases horder with hlt | ⟨hequal, hlt⟩
  · -- the greater number has a full mantissa, and the gap above the smaller one is half as wide
    -- or less
    have hsize := ha.size
    have hleast := ha.least
    have hfull : 2 ^ 52 ≤ b.mantissa := hb.full.resolve_left (by omega)
    have hlow : 2 ^ 54 - 1 ≤ l := by
      rw [hlower]
      split <;> omega
    obtain ⟨k, hk⟩ : ∃ k : ℕ, b.exponent - 2 = (k + 1 : ℕ) + (a.exponent - 2) :=
      ⟨(b.exponent - a.exponent - 1).toNat, by omega⟩
    have hgrow : l * 2 ≤ l * 2 ^ (k + 1) := by
      rw [Nat.pow_succ', ← Nat.mul_assoc]
      exact Nat.le_mul_of_pos_right _ (Nat.two_pow_pos k)
    generalize hn : l * 2 ^ (k + 1) = n at hgrow
    exact hcompare (hn ▸ Binary.mul_two_pow_eq_mul hk l) (by omega) (by omega)
  · refine hcompare (by rw [hequal]) ?_ ?_
    · rw [hlower]
      split <;> omega
    · rw [hlower]
      split <;> omega

/-- **The neighbourhoods of two doubles** have no number in common. -/
theorem Neighbourhood.eq_of_contains {a b : Binary} (ha : IsCanonical a.mantissa a.exponent)
    (hb : IsCanonical b.mantissa b.exponent) {v : ℚ} (hv : (ofBinary a).Contains v)
    (hv' : (ofBinary b).Contains v) : a.magnitude = b.magnitude := by
  have hnone {a b : Binary} (ha : IsCanonical a.mantissa a.exponent)
      (hb : IsCanonical b.mantissa b.exponent)
      (hv : (ofBinary a).Contains v) (hv' : (ofBinary b).Contains v) :
      ¬ a.magnitude < b.magnitude := by
    intro hlt
    have hupper := hv.bounds.2
    have hlower := hv'.bounds.1
    rcases upper_le_lower ha hb hlt with hapart | ⟨htouch, hodd⟩
    · exact absurd (hlower.trans hupper) (not_le.mpr hapart)
    · -- the number is the end that both share
      have hend := le_antisymm hupper (htouch.le.trans hlower)
      exact hodd ⟨of_decide_eq_true (hv.closed_of_eq (.inr hend)),
        of_decide_eq_true (hv'.closed_of_eq (.inl (hend.trans htouch)))⟩
  exact le_antisymm (not_lt.mp (hnone hb ha hv' hv)) (not_lt.mp (hnone ha hb hv hv'))

end Double

end Decimal

end NewtonRaphson
