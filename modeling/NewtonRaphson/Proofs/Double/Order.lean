import NewtonRaphson.Proofs.Double.Rounding
import NewtonRaphson.Proofs.OrderedScalar.Transitive

/-! # Rounding keeps the order

Doubles are compared by kind, exponent and mantissa. For numbers this is the order of their values,
and rounding does not turn it around, neither to a precision nor to an infinity.

* **`Double.le_iff_value`** — two numbers are compared by their values.
* **`Double.IsRounded.le_of_value_le`** — what a greater number is rounded to is not the smaller
  double.
* **`Double.mul_le_mul`** — multiplication by a double above zero keeps the order, as far as
  products are defined. -/

namespace NewtonRaphson

open Float.Model (UnpackedFloat Format)
open Float.Model.UnpackedFloat

/-! ## (1) Signed values -/

namespace Binary

/-- The **value** of a number, with its sign. -/
def value (b : Binary) : ℚ := if b.negative then -b.magnitude else b.magnitude

variable {a b : Binary}

theorem value_of_negative (h : b.negative = true) : b.value = -b.magnitude := if_pos h

theorem value_of_nonnegative (h : b.negative = false) : b.value = b.magnitude :=
  if_neg (Bool.not_eq_true _ |>.mpr h)

/-- The value of a zero does not depend on its sign. -/
theorem value_of_zero (h : b.magnitude = 0) : b.value = 0 := by
  unfold value
  split <;> simp [h]

/-- The size of a value is the value without its sign. -/
theorem abs_value (b : Binary) : |b.value| = b.magnitude := by
  unfold value
  split
  · rw [abs_neg, abs_of_nonneg b.magnitude_nonneg]
  · exact abs_of_nonneg b.magnitude_nonneg

/-- The value of the exact product. -/
theorem value_times (a b : Binary) : (a.times b).value = a.value * b.value := by
  unfold value
  rw [magnitude_times]
  cases ha : a.negative <;> cases hb : b.negative <;> simp [times, ha, hb]

/-- **Shortening keeps the order** of signed values too. -/
theorem value_shorten_mono {bits : Nat} {least : Int} (hbits : 0 < bits) (h : a.value ≤ b.value) :
    (a.shorten bits least).value ≤ (b.shorten bits least).value := by
  have hsign (c : Binary) : (c.shorten bits least).negative = c.negative :=
    Double.shorten_negative _ _ _
  have hlost (c : Binary) (hc : c.magnitude = 0) : (c.shorten bits least).value = 0 :=
    value_of_zero (magnitude_shorten_of_zero (magnitude_eq_zero_iff.mp hc))
  have hnonneg (c : Binary) := c.magnitude_nonneg
  cases ha : a.negative <;> cases hb : b.negative
  · rw [value_of_nonnegative ha, value_of_nonnegative hb] at h
    rw [value_of_nonnegative ((hsign a).trans ha), value_of_nonnegative ((hsign b).trans hb)]
    exact magnitude_shorten_mono hbits h
  · -- only zeros are at most a number with the opposite sign
    rw [value_of_nonnegative ha, value_of_negative hb] at h
    rw [hlost a (by linarith [hnonneg a, hnonneg b]), hlost b (by linarith [hnonneg a, hnonneg b])]
  · rw [value_of_negative ((hsign a).trans ha), value_of_nonnegative ((hsign b).trans hb)]
    exact (neg_nonpos.mpr (hnonneg _)).trans (hnonneg _)
  · rw [value_of_negative ha, value_of_negative hb, neg_le_neg_iff] at h
    rw [value_of_negative ((hsign a).trans ha), value_of_negative ((hsign b).trans hb),
      neg_le_neg_iff]
    exact magnitude_shorten_mono hbits h

end Binary

namespace Double

/-! ## (2) Numbers are compared by value -/

/-- Of canonical parts those with the smaller exponent have the smaller value. -/
theorem IsCanonical.lt_of_exponent_lt {m n : Nat} {e f : Int} (hm : IsCanonical m e)
    (hn : IsCanonical n f) (h : e < f) : (m : ℚ) * 2 ^ e < n * 2 ^ f := by
  have hleast := hm.least
  have hfull : 2 ^ 52 ≤ n := hn.full.resolve_left (by omega)
  calc (m : ℚ) * 2 ^ e < (2 ^ 53 : Nat) * 2 ^ e := (Binary.mul_zpow_lt_iff _ _ _).mpr hm.size
    _ = 2 ^ (53 + e) := (Binary.two_pow_eq_mul rfl).symm
    _ ≤ 2 ^ (52 + f) := zpow_le_zpow_right₀ (by norm_num) (by omega)
    _ = (2 ^ 52 : Nat) * 2 ^ f := Binary.two_pow_eq_mul rfl
    _ ≤ n * 2 ^ f := (Binary.mul_zpow_le_iff _ _ _).mpr hfull

/-- Comparing exponents first and mantissas second is comparing values. -/
theorem IsCanonical.le_iff {m n : Nat} {e f : Int} (hm : IsCanonical m e) (hn : IsCanonical n f) :
    e < f ∨ e = f ∧ m ≤ n ↔ (m : ℚ) * 2 ^ e ≤ n * 2 ^ f := by
  rcases lt_trichotomy e f with hlt | rfl | hgt
  · exact iff_of_true (.inl hlt) (hm.lt_of_exponent_lt hn hlt).le
  · rw [Binary.mul_zpow_le_iff]
    simp
  · refine iff_of_false (by omega) (not_le.mpr (hn.lt_of_exponent_lt hm hgt))

variable {x y z : Float} {a b : Binary}

/-- **Two numbers are compared by their values.** -/
theorem le_iff_value (ha : Binary.ofFloat? x = some a) (hb : Binary.ofFloat? y = some b) :
    Scalar.le x y = true ↔ a.value ≤ b.value := by
  obtain ⟨hcanonical, -⟩ := isCanonical_of_ofFloat? ha
  obtain ⟨hcanonical', -⟩ := isCanonical_of_ofFloat? hb
  rw [ofFloat?_eq] at ha hb
  rw [scalar_le_eq, le_iff_rank]
  have hpositive {m : Nat} (hm : 0 < m) (e : Int) : (0 : ℚ) < m * 2 ^ e := by positivity
  generalize parts x = u at ha ⊢
  generalize parts y = v at hb ⊢
  rcases u with _ | _ | s | ⟨_ | _, m, e, hm⟩ <;> cases ha <;>
    rcases v with _ | _ | t | ⟨_ | _, n, f, hn⟩ <;> cases hb
  case finite.negative.refl.finite.negative.refl =>
    have hle := hcanonical'.le_iff hcanonical
    simp [rank, Prod.Lex.toLex_le_toLex, Binary.value, Binary.magnitude, isNegative, ← hle, eq_comm]
  case finite.positive.refl.finite.positive.refl =>
    have hle := hcanonical.le_iff hcanonical'
    simp [rank, Prod.Lex.toLex_le_toLex, Binary.value, Binary.magnitude, isNegative, ← hle]
  -- everything else is compared by sign alone
  all_goals simp [rank, Prod.Lex.toLex_le_toLex, Binary.value, Binary.magnitude, isNegative]
  case zero.refl.finite.negative.refl => exact hpositive hn f
  case zero.refl.finite.positive.refl => exact (hpositive hn f).le
  case finite.negative.refl.zero.refl => exact (hpositive hm e).le
  case finite.negative.refl.finite.positive.refl => linarith [hpositive hm e, hpositive hn f]
  case finite.positive.refl.zero.refl => exact hpositive hm e
  case finite.positive.refl.finite.negative.refl => linarith [hpositive hm e, hpositive hn f]

/-- Doubles that are at most each other are equal. -/
theorem le_antisymm (hxy : Scalar.le x y = true) (hyx : Scalar.le y x = true) :
    Scalar.eq x y = true := by
  show (parts x).beq (parts y) = true
  rw [scalar_le_eq] at hxy hyx
  obtain ⟨hx, hy⟩ := ne_notANumber_of_le hxy
  obtain ⟨order, horder⟩ := exists_compare hx hy
  rw [UnpackedFloat.le, horder] at hxy
  rw [UnpackedFloat.le, compare_swap (parts x), horder] at hyx
  rw [UnpackedFloat.beq, horder]
  cases order with
  | eq => rfl
  | lt => cases hyx
  | gt => cases hxy

/-! ## (3) Rounded numbers -/

/-- The negative infinity is at most every double that is not undefined. -/
theorem le_of_negative_infinity (hx : parts x = .infinity .negative) (hy : parts y ≠ .notANumber) :
    Scalar.le x y = true := by
  rw [scalar_le_eq, hx]
  generalize parts y = v at hy ⊢
  rcases v with (_ | _) | _ | s | ⟨_ | _, n, f, hn⟩
  case notANumber => contradiction
  all_goals rfl

/-- The positive one is at least every such double. -/
theorem le_of_positive_infinity (hx : parts x ≠ .notANumber) (hy : parts y = .infinity .positive) :
    Scalar.le x y = true := by
  rw [scalar_le_eq, hy]
  generalize parts x = u at hx ⊢
  rcases u with (_ | _) | _ | s | ⟨_ | _, m, e, hm⟩
  case notANumber => contradiction
  all_goals rfl

/-- Only the positive infinity is at least itself. -/
theorem eq_positive_infinity_of_le (hx : parts x = .infinity .positive) (h : Scalar.le x y = true) :
    parts y = .infinity .positive := by
  rw [scalar_le_eq, hx] at h
  generalize parts y = v at h ⊢
  rcases v with (_ | _) | _ | s | ⟨_ | _, n, f, hn⟩
  case infinity.positive => rfl
  all_goals cases h

/-- Only the negative one is at most itself. -/
theorem eq_negative_infinity_of_le (hy : parts y = .infinity .negative) (h : Scalar.le x y = true) :
    parts x = .infinity .negative := by
  rw [scalar_le_eq, hy] at h
  generalize parts x = u at h ⊢
  rcases u with (_ | _) | _ | s | ⟨_ | _, m, e, hm⟩
  case infinity.negative => rfl
  all_goals cases h

/-- A double that is a number is not undefined. -/
theorem ne_notANumber_of_ofFloat? (h : Binary.ofFloat? x = some a) : parts x ≠ .notANumber := by
  intro hx
  rw [ofFloat?_eq, hx] at h
  cases h

/-- **What a number is rounded to**, by the value of the shortened number: an infinity of its sign
out of the range, and a double of that value within. -/
theorem IsRounded.cases_value {p : Precision} (h : IsRounded p b x) :
    ((b.shorten p.bits p.least).value ≤ -2 ^ p.top ∧ parts x = .infinity .negative) ∨
    (2 ^ p.top ≤ (b.shorten p.bits p.least).value ∧ parts x = .infinity .positive) ∨
    (-2 ^ p.top < (b.shorten p.bits p.least).value ∧ (b.shorten p.bits p.least).value < 2 ^ p.top ∧
      ∃ c, Binary.ofFloat? x = some c ∧ c.value = (b.shorten p.bits p.least).value) := by
  have hsign : (b.shorten p.bits p.least).negative = b.negative := shorten_negative _ _ _
  have hnonneg := (b.shorten p.bits p.least).magnitude_nonneg
  cases h with
  | infinity hreaches hx =>
    rw [Binary.reaches_iff] at hreaches
    cases hnegative : b.negative with
    | true =>
      rw [hnegative] at hx
      refine .inl ⟨?_, hx⟩
      rw [Binary.value_of_negative (hsign.trans hnegative)]
      exact neg_le_neg hreaches
    | false =>
      rw [hnegative] at hx
      refine .inr (.inl ⟨?_, hx⟩)
      rwa [Binary.value_of_nonnegative (hsign.trans hnegative)]
  | @finite c hreaches hx hsame hvalue =>
    rw [Bool.eq_false_iff, ne_eq, Binary.reaches_iff, not_le] at hreaches
    refine .inr (.inr ⟨?_, ?_, c, hx, ?_⟩)
    · unfold Binary.value
      split <;> linarith
    · unfold Binary.value
      split <;> linarith
    · unfold Binary.value
      rw [hsame, hsign, hvalue]

/-- Rounded numbers are not undefined. -/
theorem IsRounded.ne_notANumber {p : Precision} (h : IsRounded p b x) : parts x ≠ .notANumber := by
  cases h with
  | infinity _ hx =>
    rw [hx]
    nofun
  | finite _ hx => exact ne_notANumber_of_ofFloat? hx

/-- **Rounding keeps the order.** -/
theorem IsRounded.le_of_value_le {p : Precision} (hx : IsRounded p a x) (hy : IsRounded p b y)
    (h : a.value ≤ b.value) : Scalar.le x y = true := by
  have hmono : (a.shorten p.bits p.least).value ≤ (b.shorten p.bits p.least).value :=
    Binary.value_shorten_mono p.bits_pos h
  have hrange : (0 : ℚ) < 2 ^ p.top := by positivity
  rcases hx.cases_value with ⟨-, hinfinite⟩ | ⟨hx, hinfinite⟩ | ⟨hbelow, habove, c, hc, hvalue⟩
  · exact le_of_negative_infinity hinfinite hy.ne_notANumber
  · rcases hy.cases_value with ⟨hy, -⟩ | ⟨-, hinfinite'⟩ | ⟨-, hy, -⟩
    · linarith
    · exact le_of_positive_infinity (hinfinite ▸ nofun) hinfinite'
    · linarith
  · rcases hy.cases_value with ⟨hy, -⟩ | ⟨-, hinfinite'⟩ | ⟨-, -, d, hd, hvalue'⟩
    · linarith
    · exact le_of_positive_infinity (ne_notANumber_of_ofFloat? hc) hinfinite'
    · rw [le_iff_value hc hd, hvalue, hvalue']
      exact hmono

/-! ## (4) Products -/

/-- A double that is not at most zero is undefined, the positive infinity, or a number above
zero. -/
theorem cases_of_not_le_zero (h : Scalar.le x Scalar.zero = false) :
    parts x = .notANumber ∨ parts x = .infinity .positive ∨
      ∃ c, Binary.ofFloat? x = some c ∧ 0 ≤ c.value ∧ ∃ m e hm,
      parts x = .finite .positive m e hm := by
  rw [scalar_le_eq] at h
  rw [ofFloat?_eq]
  generalize parts x = u at h ⊢
  rcases u with (_ | _) | _ | s | ⟨_ | _, m, e, hm⟩
  case notANumber => exact .inl rfl
  case infinity.positive => exact .inr (.inl rfl)
  case finite.positive =>
    refine .inr (.inr ⟨_, rfl, ?_, m, e, hm, rfl⟩)
    exact Binary.magnitude_nonneg ⟨false, m, e⟩
  all_goals cases h

/-- A double is undefined, an infinity, or a number. -/
theorem parts_cases (x : Float) :
    parts x = .notANumber ∨ (∃ s, parts x = .infinity s) ∨ ∃ a, Binary.ofFloat? x = some a := by
  rcases hx : Binary.ofFloat? x with _ | a
  · exact (parts_of_ofFloat?_none hx).imp_right .inl
  · exact .inr (.inr ⟨a, rfl⟩)

/-- An infinity times a number above zero is that infinity. -/
theorem parts_mul_of_infinity {s : Sign} (hx : parts x = .infinity s) {m : Nat} {e : Int}
    {hm : 0 < m} (hz : parts z = .finite .positive m e hm) : parts (x * z) = .infinity s := by
  rw [parts_mul, hx, hz]
  cases s <;> exact unpack_pack_infinity _

/-- **Multiplication by a number above zero** keeps the order. -/
theorem mul_le_mul_of_number {c : Binary} (hc : Binary.ofFloat? z = some c) (hnonneg : 0 ≤ c.value)
    (hpositive : ∃ m e hm, parts z = .finite .positive m e hm) (h : Scalar.le x y = true) :
    Scalar.le (x * z) (y * z) = true := by
  obtain ⟨m, e, hm, hz⟩ := hpositive
  have hdefined (v : Float) (hv : parts v ≠ .notANumber) : parts (v * z) ≠ .notANumber := by
    rcases parts_cases v with hundefined | ⟨s, hv⟩ | ⟨d, hd⟩
    · exact absurd hundefined hv
    · rw [parts_mul_of_infinity hv hz]
      nofun
    · exact (isRounded_mul hd hc).ne_notANumber
  obtain ⟨hx, hy⟩ := ne_notANumber_of_le (scalar_le_eq x y ▸ h)
  rcases parts_cases x with hundefined | ⟨_ | _, hinfinite⟩ | ⟨a, ha⟩
  · exact absurd hundefined hx
  · exact le_of_negative_infinity (parts_mul_of_infinity hinfinite hz) (hdefined y hy)
  · exact le_of_positive_infinity (hdefined x hx)
      (parts_mul_of_infinity (eq_positive_infinity_of_le hinfinite h) hz)
  · rcases parts_cases y with hundefined | ⟨_ | _, hinfinite⟩ | ⟨b, hb⟩
    · exact absurd hundefined hy
    · exact le_of_negative_infinity
        (parts_mul_of_infinity (eq_negative_infinity_of_le hinfinite h) hz) (hdefined y hy)
    · exact le_of_positive_infinity (hdefined x hx) (parts_mul_of_infinity hinfinite hz)
    · refine (isRounded_mul ha hc).le_of_value_le (isRounded_mul hb hc) ?_
      rw [Binary.value_times, Binary.value_times]
      exact mul_le_mul_of_nonneg_right ((le_iff_value ha hb).mp h) hnonneg

/-- A product with an undefined value is undefined. -/
theorem parts_mul_undefined (hz : parts z = .notANumber) : parts (x * z) = .notANumber := by
  rw [parts_mul, hz]
  cases parts x <;> exact unpack_pack_notANumber

/-- The product of doubles above zero is not below it, though it may be lost. -/
theorem zero_le_mul (hx : Scalar.lt Scalar.zero x = true) (hz : Scalar.lt Scalar.zero z = true) :
    Scalar.le Scalar.zero (x * z) = true := by
  rw [scalar_lt_eq] at hx hz
  rw [scalar_zero_le_iff, parts_mul]
  generalize parts x = u at hx ⊢
  generalize parts z = w at hz ⊢
  apply NotBelowZero.pack
  rcases u with (_ | _) | _ | s | ⟨_ | _, m, e, hm⟩ <;> cases hx <;>
    rcases w with (_ | _) | _ | t | ⟨_ | _, n, f, hn⟩ <;> cases hz
  case finite.positive.refl.finite.positive.refl => exact notBelowZero_roundWithAccuracy _ _ _ _
  all_goals exact .infinity

/-- The positive infinity times a double above zero is that infinity. -/
theorem parts_mul_positive_infinity (hz : parts z = .infinity .positive)
    (hx : Scalar.lt Scalar.zero x = true) : parts (x * z) = .infinity .positive := by
  rw [scalar_lt_eq] at hx
  rw [parts_mul, hz]
  generalize parts x = u at hx ⊢
  rcases u with (_ | _) | _ | s | ⟨_ | _, m, e, hm⟩
  case infinity.positive | finite.positive => exact unpack_pack_infinity .positive
  all_goals cases hx

/-- No other product with it is defined and not below zero. -/
theorem lt_of_zero_le_mul_infinity (hz : parts z = .infinity .positive)
    (h : Scalar.le Scalar.zero (x * z) = true) : Scalar.lt Scalar.zero x = true := by
  rw [scalar_zero_le_iff, parts_mul, hz] at h
  rw [scalar_lt_eq]
  generalize parts x = u at h ⊢
  rcases u with (_ | _) | _ | s | ⟨_ | _, m, e, hm⟩
  case infinity.positive | finite.positive => rfl
  case zero | notANumber =>
    have hundefined : NotBelowZero (unpack Format.binary64 (pack Format.binary64 .notANumber)) := h
    rw [unpack_pack_notANumber] at hundefined
    cases hundefined
  case infinity.negative | finite.negative =>
    have hinfinite :
        NotBelowZero (unpack Format.binary64 (pack Format.binary64 (.infinity .negative))) := h
    rw [unpack_pack_infinity] at hinfinite
    cases hinfinite

/-- What is at least a double above zero is above zero. -/
theorem lt_of_lt_of_le (hx : Scalar.lt Scalar.zero x = true) (h : Scalar.le x y = true) :
    Scalar.lt Scalar.zero y = true := by
  rw [scalar_lt_eq] at hx ⊢
  rw [scalar_le_eq] at h
  generalize parts x = u at hx h
  generalize parts y = v at h ⊢
  rcases u with (_ | _) | _ | s | ⟨_ | _, m, e, hm⟩ <;> cases hx <;>
    rcases v with (_ | _) | _ | t | ⟨_ | _, n, f, hn⟩ <;> first | rfl | cases h

/-- **Multiplication by a double above zero** keeps the order. By the infinity it does so where the
smaller product is defined and not below zero. -/
theorem mul_le_mul (h : Scalar.le x y = true) (hz : Scalar.le z Scalar.zero = false)
    (hdefined : Scalar.isFinite z = true ∨ Scalar.le Scalar.zero (x * z) = true) :
    Scalar.le (x * z) (y * z) = true := by
  have hfinite : Scalar.isFinite z = (parts z).isFinite := rfl
  rcases cases_of_not_le_zero hz with hundefined | hinfinite | ⟨c, hc, hnonneg, hpositive⟩
  · rw [hfinite, hundefined, scalar_zero_le_iff, parts_mul_undefined hundefined] at hdefined
    rcases hdefined with hdefined | hdefined <;> cases hdefined
  · rw [hfinite, hinfinite] at hdefined
    have hx : Scalar.lt Scalar.zero x = true :=
      lt_of_zero_le_mul_infinity hinfinite (hdefined.resolve_left nofun)
    refine le_of_positive_infinity ?_ (parts_mul_positive_infinity hinfinite (lt_of_lt_of_le hx h))
    rw [parts_mul_positive_infinity hinfinite hx]
    nofun
  · exact mul_le_mul_of_number hc hnonneg hpositive h

end Double

end NewtonRaphson
