import NewtonRaphson.Proofs.Double.Rounding

/-! # Doubles not below a power of two

A value that is far enough from zero stays away from it: sums with further values that are not below
zero, roots and rounding to a precision keep it above a power of two that the precision has.

* **`Double.AtLeast k x`** — `x` is the positive infinity, or a number that is not below `2 ^ k`.
* **`Double.AtLeast.add`**, **`Double.AtLeast.sqrt`**, **`Double.AtLeast.nearest`** — what keeps it
  so. -/

namespace NewtonRaphson

open Float.Model (UnpackedFloat Format totalExponent)
open Float.Model.UnpackedFloat

namespace Double

/-- A double **at least** a power of two. -/
inductive AtLeast (k : Int) (x : Float) : Prop where
  /-- The positive infinity. -/
  | infinity (hx : parts x = .infinity .positive)
  /-- A number. -/
  | finite {b : Binary} (hx : Binary.ofFloat? x = some b) (hsign : b.negative = false)
      (hvalue : 2 ^ k ≤ b.magnitude)

variable {k : Int} {x y : Float}

/-- What such a number is rounded to is another one, if the precision has the power of two. -/
theorem IsRounded.atLeast {p : Precision} {b : Binary} (h : IsRounded p b x)
    (hsign : b.negative = false) (hk : p.least ≤ k) (hvalue : 2 ^ k ≤ b.magnitude) :
    AtLeast k x := by
  cases h with
  | infinity hreaches hx =>
    rw [hsign] at hx
    exact .infinity hx
  | finite hreaches hx hsame hshort =>
    exact .finite hx (hsame.trans hsign) (hshort ▸ Binary.le_magnitude_shorten p.bits_pos hk hvalue)

/-- What is no number is left alone by rounding to a precision. -/
theorem nearest_of_none (p : Precision) (h : Binary.ofFloat? x = none) : p.nearest x = x := by
  cases p with
  | double => rfl
  | single => simp only [Precision.nearest, h]

/-- **Rounding to a precision** that has the power of two keeps a double above it. -/
theorem AtLeast.nearest (h : AtLeast k x) {p : Precision} (hk : p.least ≤ k) :
    AtLeast k (p.nearest x) := by
  cases h with
  | infinity hx =>
    have hnone : Binary.ofFloat? x = none := by
      rw [ofFloat?_eq, hx]
      rfl
    rw [nearest_of_none p hnone]
    exact .infinity hx
  | finite hx hsign hvalue =>
    cases p with
    | double => exact .finite hx hsign hvalue
    | single => exact (isRounded_nearest hx).atLeast hsign hk hvalue

/-- The parts of a number that is at least a power of two. -/
theorem AtLeast.exists_parts (h : AtLeast k x) :
    parts x = .infinity .positive ∨
      ∃ m e hm, parts x = .finite .positive m e hm ∧ IsCanonical m e ∧ e ≤ 971 ∧
      (2 : ℚ) ^ k ≤ m * 2 ^ e := by
  cases h with
  | infinity hx => exact .inl hx
  | @finite b hx hsign hvalue =>
    obtain ⟨hcanonical, hrange⟩ := isCanonical_of_ofFloat? hx
    rw [ofFloat?_eq] at hx
    rcases hparts : parts x with _ | _ | s | ⟨s, m, e, hm⟩ <;> rw [hparts] at hx <;> cases hx
    · rw [Binary.magnitude_eq_zero_iff.mpr rfl] at hvalue
      exact absurd hvalue (not_le.mpr (by positivity))
    · cases s with
      | positive => exact .inr ⟨m, e, hm, rfl, hcanonical, hrange, hvalue⟩
      | negative => cases hsign

/-- **Rounding keeps powers of two**, whatever is known of the bits that are lost: if the exponent
is not above that of the format, a number does not come below one. -/
theorem atLeast_of_roundWithAccuracy {b : Binary} {a : Accuracy} (hb : b.mantissa ≠ 0)
    (hroom : b.exponent ≤ Binary.formatExponent 53 (-1074) b) (hk : -1074 ≤ k)
    (hvalue : 2 ^ k ≤ b.magnitude)
    (hx : parts x = unpack Format.binary64 (UnpackedFloat.pack Format.binary64
      (roundWithAccuracy Format.binary64 .positive b.mantissa b.exponent a))) : AtLeast k x := by
  obtain ⟨j, hj⟩ : ∃ j : Nat, Binary.formatExponent 53 (-1074) b = b.exponent + j :=
    ⟨(Binary.formatExponent 53 (-1074) b - b.exponent).toNat, by omega⟩
  have hfirst := (Binary.le_magnitude_iff hb k).mp hvalue
  -- the first bit is not among those that are lost
  have hkept : j ≤ b.mantissa.log2 := by
    unfold Binary.formatExponent at hj
    omega
  have hrounded : 2 ^ (b.mantissa.log2 - j) ≤
      (ExtendedMantissa.ofMantissaAndAccuracy b.mantissa a >>> j).roundedMantissa := by
    refine Nat.le_trans ?_ (le_roundToNearestEven _ _)
    rw [mantissa_shiftRight, mantissa_ofMantissaAndAccuracy,
      Nat.le_div_iff_mul_le (Nat.two_pow_pos j), ← Nat.pow_add, Nat.sub_add_cancel hkept]
    exact Nat.log2_self_le hb
  rcases roundWithAccuracy_cases hj .positive a hb with
    ⟨hzero, -⟩ | ⟨m, e, hm, hround, hcanonical, hsame⟩
  · rw [hzero] at hrounded
    exact absurd hrounded (Nat.not_le.mpr (Nat.two_pow_pos _))
  · rw [hround, unpack_pack_finite hcanonical] at hx
    by_cases hrange : e ≤ 971
    · rw [if_pos hrange] at hx
      refine .finite (b := ⟨false, m, e⟩) ?_ rfl ?_
      · rw [ofFloat?_eq, hx]
        rfl
      · calc (2 : ℚ) ^ k ≤ 2 ^ ((b.mantissa.log2 - j : Nat) + (b.exponent + j)) :=
              zpow_le_zpow_right₀ (by norm_num) (by omega)
          _ = (2 ^ (b.mantissa.log2 - j) : Nat) * 2 ^ (b.exponent + j) := Binary.two_pow_eq_mul rfl
          _ ≤ _ := (Binary.mul_zpow_le_iff _ _ _).mpr hrounded
          _ = m * 2 ^ e := hsame.symm
    · rw [if_neg hrange] at hx
      exact .infinity hx

/-- **Making room** for the bits of the format before rounding moves bits from the exponent to the
mantissa, until the exponent is not above that of the format. -/
theorem exists_round_eq (s : Sign) {m : Nat} (hm : m ≠ 0) (e : Int) :
    ∃ j : Nat, UnpackedFloat.round Format.binary64 s m e =
        roundWithAccuracy Format.binary64 s (m * 2 ^ j) (e - j) .exact ∧
      ∀ negative, e - j ≤ Binary.formatExponent 53 (-1074) ⟨negative, m * 2 ^ j, e - j⟩ := by
  obtain ⟨j, hj⟩ : ∃ j, (e - max ((m.log2 : Int) + 1 + e - 53) (-1074)).toNat = j := ⟨_, rfl⟩
  refine ⟨j, ?_, fun negative => ?_⟩
  · unfold UnpackedFloat.round decreaseExponent
    dsimp only
    rw [targetExponent_eq, totalExponent, Nat.shiftLeft_eq, hj]
  · -- zeros behind a number move its first bit up as far as the exponent goes down
    have hlog := log2_add_le (Nat.pos_of_ne_zero hm) j
    show e - j ≤ max (e - j + ((m * 2 ^ j).log2 + 1) - 53) (-1074)
    omega

/-- Rounding that first makes room for the bits of the format keeps powers of two as well. -/
theorem atLeast_of_round {b : Binary} (hb : b.mantissa ≠ 0) (hk : -1074 ≤ k)
    (hvalue : 2 ^ k ≤ b.magnitude)
    (hx : parts x = unpack Format.binary64 (UnpackedFloat.pack Format.binary64
      (UnpackedFloat.round Format.binary64 .positive b.mantissa b.exponent))) : AtLeast k x := by
  obtain ⟨j, hround, hroom⟩ := exists_round_eq .positive hb b.exponent
  rw [hround] at hx
  exact atLeast_of_roundWithAccuracy (b := ⟨b.negative, b.mantissa * 2 ^ j, b.exponent - j⟩)
    (Nat.mul_ne_zero hb (Nat.ne_of_gt (Nat.two_pow_pos j))) (hroom b.negative) hk
    (hvalue.trans_eq (Binary.magnitude_shift _ _ _ _).symm) hx

/-- Doubles with the same parts are at least the same powers of two. -/
theorem AtLeast.of_parts (h : AtLeast k x) (hxy : parts y = parts x) : AtLeast k y := by
  cases h with
  | infinity hx => exact .infinity (hxy.trans hx)
  | finite hx hsign hvalue =>
    rw [ofFloat?_eq, ← hxy, ← ofFloat?_eq] at hx
    exact .finite hx hsign hvalue

/-- **A sum** with a value that is not below zero stays above the power of two. -/
theorem AtLeast.add (h : AtLeast k x) (hk : -1074 ≤ k) (hy : NotBelowZero (parts y)) :
    AtLeast k (x + y) := by
  have hsum := parts_add x y
  generalize parts y = u at hy hsum
  rcases h.exists_parts with hx | ⟨m, e, hm, hx, hcanonical, hrange, hvalue⟩
  · have hinfinite : UnpackedFloat.add Format.binary64 (.infinity .positive) u =
        .infinity .positive := by
      cases hy <;> rfl
    rw [hx, hinfinite, unpack_pack_infinity] at hsum
    exact .infinity hsum
  · rw [hx] at hsum
    cases hy with
    | zero t =>
      -- nothing is added
      refine h.of_parts (hsum.trans ?_)
      rw [hx]
      exact (unpack_pack_finite hcanonical).trans (if_pos hrange)
    | infinity =>
      have hinfinite :
          UnpackedFloat.add Format.binary64 (.finite .positive m e hm) (.infinity .positive) =
          .infinity .positive := rfl
      rw [hinfinite, unpack_pack_infinity] at hsum
      exact .infinity hsum
    | finite n f hn =>
      -- both numbers are multiples of the smaller power of two, and so is their sum
      obtain ⟨i, hi⟩ : ∃ i, (e - min e f).toNat = i := ⟨_, rfl⟩
      obtain ⟨j, hj⟩ : ∃ j, (f - min e f).toNat = j := ⟨_, rfl⟩
      have hpos : 0 < m * 2 ^ i := Nat.mul_pos hm (Nat.two_pow_pos i)
      have hadd :
          UnpackedFloat.add Format.binary64 (.finite .positive m e hm) (.finite .positive n f hn) =
          UnpackedFloat.round Format.binary64 .positive (m * 2 ^ i + n * 2 ^ j) (min e f) := by
        have hcompare : compare ((m * 2 ^ i + n * 2 ^ j : Nat) : Int) 0 = .gt :=
          compare_gt_iff_gt.mpr (by omega)
        show UnpackedFloat.normalize Format.binary64 (((m <<< (e - min e f).toNat : Nat) : Int) +
          ((n <<< (f - min e f).toNat : Nat) : Int)) (min e f) .positive = _
        rw [hi, hj, Nat.shiftLeft_eq, Nat.shiftLeft_eq, ← Int.natCast_add,
          UnpackedFloat.normalize, hcompare]
        rfl
      rw [hadd] at hsum
      refine atLeast_of_round (b := ⟨false, m * 2 ^ i + n * 2 ^ j, min e f⟩)
        (by dsimp only; omega) hk ?_ hsum
      calc (2 : ℚ) ^ k ≤ m * 2 ^ e := hvalue
        _ = (m * 2 ^ i : Nat) * 2 ^ min e f := by
            have hshift := Binary.magnitude_shift false m i e
            rw [show e - (i : Int) = min e f by omega] at hshift
            exact hshift.symm
        _ ≤ _ := (Binary.mul_zpow_le_iff _ _ _).mpr (Nat.le_add_right _ _)

/-- **A root** is not below the root of the power of two. -/
theorem AtLeast.sqrt (h : AtLeast (2 * k) x) (hk : -1074 ≤ k) : AtLeast k x.sqrt := by
  have hroot := parts_sqrt x
  rcases h.exists_parts with hx | ⟨m, e, hm, hx, hcanonical, hrange, hvalue⟩
  · rw [hx] at hroot
    exact .infinity hroot
  · have hfirst := (Binary.le_magnitude_iff (b := ⟨false, m, e⟩) (Nat.ne_of_gt hm) _).mp hvalue
    dsimp only at hfirst
    -- the mantissa is brought to an even exponent, and to twice the bits of the format
    obtain ⟨t, ht⟩ : ∃ t, min (e / 2) (max (((m.log2 : Int) + 1 + e + 1) / 2 - 53) (-1074)) = t :=
      ⟨_, rfl⟩
    obtain ⟨i, hi⟩ : ∃ i, (e - 2 * t).toNat = i := ⟨_, rfl⟩
    obtain ⟨a, hsqrt⟩ : ∃ a, UnpackedFloat.sqrt Format.binary64 (.finite .positive m e hm) =
        roundWithAccuracy Format.binary64 .positive (Nat.sqrt (m * 2 ^ i)) t a := by
      refine ⟨(sqrtCore Format.binary64 m e).2.2, ?_⟩
      have hroot : (sqrtCore Format.binary64 m e).1 = Nat.sqrt (m * 2 ^ i) := by
        rw [← Nat.shiftLeft_eq, ← hi, ← ht]
        rfl
      rw [← hroot, ← ht]
      rfl
    have hexponent : e = 2 * t + i := by omega
    have hbits : 2 ^ (m.log2 + i) ≤ m * 2 ^ i := by
      rw [Nat.pow_add]
      exact Nat.mul_le_mul_right _ (Nat.log2_self_le (Nat.ne_of_gt hm))
    have hhalf : 2 ^ ((m.log2 + i) / 2) ≤ Nat.sqrt (m * 2 ^ i) := by
      refine Nat.le_sqrt.mpr (Nat.le_trans ?_ hbits)
      rw [← Nat.pow_add]
      exact Nat.pow_le_pow_right Nat.two_pos (by omega)
    have hpos : Nat.sqrt (m * 2 ^ i) ≠ 0 :=
      Nat.ne_of_gt (Nat.lt_of_lt_of_le (Nat.two_pow_pos _) hhalf)
    have hlog : (m.log2 + i) / 2 ≤ (Nat.sqrt (m * 2 ^ i)).log2 := (Nat.le_log2 hpos).mpr hhalf
    rw [hx, hsqrt] at hroot
    refine atLeast_of_roundWithAccuracy (b := ⟨false, Nat.sqrt (m * 2 ^ i), t⟩) hpos ?_ hk ?_ hroot
    · show t ≤ max (t + ((Nat.sqrt (m * 2 ^ i)).log2 + 1) - 53) (-1074)
      omega
    · rw [Binary.le_magnitude_iff hpos]
      show k ≤ t + (Nat.sqrt (m * 2 ^ i)).log2
      omega

end Double

end NewtonRaphson
