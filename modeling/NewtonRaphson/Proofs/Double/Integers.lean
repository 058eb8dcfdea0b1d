import NewtonRaphson.Datum.Number
import NewtonRaphson.Proofs.Double.Rounding

/-! # Integers as doubles

An integer becomes the nearest double. Which integers have one is known by their size alone.

* **`Double.isFinite_ofInt_iff`** — the nearest double is a number exactly if the integer is less
  than half a unit beyond the greatest double.
* **`realOfInt_eq_ok_iff`** — so it is exactly these integers that are accepted as entries. -/

namespace NewtonRaphson

open Float.Model (UnpackedFloat Format)
open Float.Model.UnpackedFloat

namespace Double

/-! ## (1) The bound -/

theorem bound_eq : bound = (2 ^ 54 - 1 : Nat) * 2 ^ (970 : Int) := by
  rw [bound, Binary.two_pow_eq_mul (show (1024 : Int) = (54 : Nat) + 970 by rfl), ← sub_one_mul,
    Nat.cast_sub (Nat.one_le_two_pow), Nat.cast_one]

/-- Numbers of 53 bits are below the bound. -/
theorem lt_bound_of_short {k : Nat} (hk : k < 2 ^ 53) : (k : ℚ) < bound := by
  calc (k : ℚ) < (2 ^ 54 - 1 : Nat) := by
        exact_mod_cast (by omega : k < 2 ^ 54 - 1)
    _ ≤ (2 ^ 54 - 1 : Nat) * 2 ^ (970 : Int) :=
      le_mul_of_one_le_right (Nat.cast_nonneg _) (one_le_zpow₀ (by norm_num) (by norm_num))
    _ = bound := bound_eq.symm

/-- Every number of a double is below the bound. -/
theorem magnitude_lt_bound {x : Float} {b : Binary} (hb : Binary.ofFloat? x = some b) :
    b.magnitude < bound := by
  obtain ⟨⟨hsize, -, -⟩, hrange⟩ := isCanonical_of_ofFloat? hb
  have hgreatest : ((2 ^ 53 - 1 : Nat) : ℚ) * 2 ^ (971 : Int) =
      ((2 ^ 53 - 1) * 2 ^ 1 : Nat) * 2 ^ (970 : Int) :=
    Binary.mul_two_pow_eq_mul (by rfl) _
  calc b.magnitude ≤ (2 ^ 53 - 1 : Nat) * 2 ^ b.exponent :=
        (Binary.mul_zpow_le_iff _ _ _).mpr (by omega)
    _ ≤ (2 ^ 53 - 1 : Nat) * 2 ^ (971 : Int) :=
        mul_le_mul_of_nonneg_left (zpow_le_zpow_right₀ (by norm_num) hrange) (Nat.cast_nonneg _)
    _ < (2 ^ 54 - 1 : Nat) * 2 ^ (970 : Int) := by
      rw [hgreatest, Binary.mul_zpow_lt_iff]
      norm_num
    _ = bound := bound_eq.symm

/-! ## (2) Natural numbers -/

/-- A natural number written with zeros behind it. -/
theorem magnitude_scaled (k s : Nat) : (⟨false, k * 2 ^ s, -s⟩ : Binary).magnitude = k := by
  unfold Binary.magnitude
  rw [Nat.cast_mul, Nat.cast_pow, Nat.cast_ofNat, zpow_neg, zpow_natCast, mul_assoc,
    mul_inv_cancel₀ (by positivity), mul_one]

/-- What a natural number is rounded to that is shifted far enough. -/
theorem isRounded_of_shifted {k s : Nat} (hk : 0 < k) (hs : 52 ≤ k.log2 + s) {x : Float}
    (hx : parts x = unpack Format.binary64 (UnpackedFloat.pack Format.binary64
      (roundWithAccuracy Format.binary64 .positive (k * 2 ^ s) (-s) .exact))) :
    IsRounded .double ⟨false, k * 2 ^ s, -s⟩ x := by
  refine isRounded_of_parts rfl (Nat.ne_of_gt (Nat.mul_pos hk (Nat.two_pow_pos s))) ?_ hx
  have hlog := log2_add_le hk s
  unfold Binary.formatExponent
  dsimp only
  omega

/-- Multiplying by one keeps numbers. -/
theorem isFinite_mul_one {x : Float} (hx : x.isFinite = true) : (x * 1.0).isFinite = true := by
  obtain ⟨b, hb⟩ := exists_ofFloat?_of_isFinite hx
  have hone : Binary.ofFloat? 1.0 = some ⟨false, 1 * 2 ^ 52, -(52 : Nat)⟩ := by
    rw [ofFloat?_eq]
    rfl
  rw [isFinite_mul_iff hb hone, magnitude_scaled, Nat.cast_one, mul_one]
  exact magnitude_lt_bound hb

theorem isFinite_ofScientific_iff {k : Nat} (hk : 0 < k) :
    (Float.ofScientific k false 0).isFinite = true ↔ (k : ℚ) < bound := by
  by_cases hshort : k < 2 ^ 53
  · -- the conversion is exact, and what is multiplied by one stays in range
    have hparts := parts_toFloat_of_short hshort
    rw [ofNat_eq_roundWithAccuracy hk] at hparts
    have hrounded := isRounded_of_shifted hk (by omega) hparts
    have hfinite : k.toUInt64.toFloat.isFinite = true := by
      rw [hrounded.isFinite_iff, magnitude_scaled]
      exact lt_bound_of_short hshort
    rw [ofScientific_of_short hshort]
    exact iff_of_true (isFinite_mul_one hfinite) (lt_bound_of_short hshort)
  · -- the number has bits enough to be rounded at once
    have hlong : 2 ^ 53 ≤ k := Nat.not_lt.mp hshort
    have hlog : 53 ≤ k.log2 := (Nat.le_log2 (Nat.ne_of_gt hk)).mpr hlong
    have hrounded := isRounded_of_shifted hk (by omega) (parts_ofScientific_of_long hlong)
    rw [hrounded.isFinite_iff, magnitude_scaled]
    rfl

/-! ## (3) Integers -/

/-- Changing the sign keeps numbers. -/
theorem isFinite_neg (x : Float) : x.neg.isFinite = x.isFinite := by
  show (parts (-x)).isFinite = (parts x).isFinite
  rw [parts_neg]
  cases parts x <;> rfl

/-- **The integers in the range of doubles** are those below the bound on either side of zero. -/
theorem isFinite_ofInt_iff (n : Int) :
    (Float.ofInt n).isFinite = true ↔ (n.natAbs : ℚ) < bound := by
  rcases n with (_ | k) | k
  · exact iff_of_true (by decide +kernel) (lt_bound_of_short (by norm_num))
  · exact isFinite_ofScientific_iff k.succ_pos
  · show (Float.ofScientific (k + 1) false 0).neg.isFinite = true ↔ _
    rw [isFinite_neg]
    exact isFinite_ofScientific_iff k.succ_pos

end Double

/-- **The integers that are accepted** as entries are those in the range of doubles, as the nearest
double. -/
theorem realOfInt_eq_ok_iff {n : Int} {x : Float} :
    realOfInt n = .ok x ↔ (n.natAbs : ℚ) < Double.bound ∧ Float.ofInt n = x := by
  rw [← Double.isFinite_ofInt_iff]
  unfold realOfInt
  dsimp only
  by_cases hfinite : (Float.ofInt n).isFinite = true
  · rw [if_pos hfinite]
    exact ⟨fun h => ⟨hfinite, Except.ok.inj h⟩, fun h => congrArg Except.ok h.2⟩
  · rw [if_neg hfinite]
    exact ⟨nofun, fun h => absurd h.1 hfinite⟩

end NewtonRaphson
