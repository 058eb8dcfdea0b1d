import NewtonRaphson.Proofs.OrderedScalar.Binary
import NewtonRaphson.Settings

/-! # Doubles above zero

A singularity factor is accepted if it compares above zero as the number that was given; that the
double kept of it is above zero too has to be seen on the parts. Rounding to doubles loses no
positive number that is not below the least one.

* **`Double.AboveZero`** — the parts of a positive number or infinity.
* **`Double.aboveZero_roundWithAccuracy`** and **`Double.AboveZero.pack`** — rounding and packing
  keep them.
* **`Datum.scalar_lt_of_toSingularityFactor`** — an accepted singularity factor is above zero. -/

namespace NewtonRaphson

open Float.Model (UnpackedFloat Format totalExponent)
open Float.Model.UnpackedFloat

namespace Double

/-- The parts of a double **above zero**. -/
inductive AboveZero : UnpackedFloat → Prop where
  /-- The positive infinity. -/
  | infinity : AboveZero (.infinity .positive)
  /-- A positive number in range. -/
  | finite (m : Nat) (e : Int) (hm : 0 < m) (hsize : m < 2 ^ 53) (he : -1074 ≤ e) :
      AboveZero (.finite .positive m e hm)

theorem AboveZero.scalar_lt {x : Float} (h : AboveZero (parts x)) :
    Scalar.lt Scalar.zero x = true := by
  rw [scalar_lt_eq]
  generalize parts x = u at h
  cases h <;> rfl

/-! ## (1) Rounding -/

theorem mantissa_shiftRight (em : ExtendedMantissa) (k : Nat) :
    (em >>> k).mantissa = em.mantissa / 2 ^ k := by
  induction k with
  | zero => exact (Nat.div_one _).symm
  | succ k ih =>
    show (ExtendedMantissa.shiftRightOne (em >>> k)).mantissa = _
    rw [ExtendedMantissa.shiftRightOne, ih, Nat.div_div_eq_div_mul, Nat.pow_succ]

theorem mantissa_ofMantissaAndAccuracy (m : Nat) (a : Accuracy) :
    (ExtendedMantissa.ofMantissaAndAccuracy m a).mantissa = m := by
  rcases a with _ | (_ | _ | _) <;> rfl

theorem le_roundToNearestEven (m : Nat) (a : Accuracy) : m ≤ a.roundToNearestEven m := by
  rcases a with _ | (_ | _ | _)
  case inexact.eq => exact Nat.le_add_right m (m % 2)
  case inexact.gt => exact Nat.le_succ m
  all_goals exact Nat.le_refl m

/-- Zeros behind a number move its first bit up. -/
theorem log2_add_le {m : Nat} (hm : 0 < m) (k : Nat) : m.log2 + k ≤ (m * 2 ^ k).log2 := by
  have hpos : m * 2 ^ k ≠ 0 := Nat.ne_of_gt (Nat.mul_pos hm (Nat.two_pow_pos k))
  rw [Nat.le_log2 hpos, Nat.pow_add]
  exact Nat.mul_le_mul_right _ (Nat.log2_self_le (Nat.ne_of_gt hm))

theorem targetExponent_eq (t : Int) : Format.binary64.targetExponent t = max (t - 53) (-1074) := rfl

/-- **The shift to the exponent of the format** leaves 53 bits at most, and something of every
number that is not below the least one. -/
theorem shiftToTargetExponent_bounds {m : Nat} {e : Int} (hm : 0 < m) (he : -1074 ≤ m.log2 + e)
    (a : Accuracy) :
    0 < (shiftToTargetExponent Format.binary64 m e a).1.mantissa ∧
      (shiftToTargetExponent Format.binary64 m e a).1.mantissa < 2 ^ 53 ∧
      -1074 ≤ (shiftToTargetExponent Format.binary64 m e a).2 := by
  unfold shiftToTargetExponent shiftToExponent
  dsimp only
  rw [mantissa_shiftRight, mantissa_ofMantissaAndAccuracy, targetExponent_eq, totalExponent]
  have hlow : 2 ^ m.log2 ≤ m := Nat.log2_self_le (Nat.ne_of_gt hm)
  have hhigh : m < 2 ^ (m.log2 + 1) := Nat.lt_log2_self
  generalize m.log2 = width at *
  obtain ⟨k, hk⟩ : ∃ k, (max ((width : Int) + 1 + e - 53) (-1074) - e).toNat = k := ⟨_, rfl⟩
  rw [hk]
  refine ⟨?_, ?_, by omega⟩
  · -- no more bits are shifted out than there are behind the first
    refine Nat.div_pos (Nat.le_trans (Nat.pow_le_pow_right Nat.two_pos ?_) hlow) (Nat.two_pow_pos k)
    omega
  · rw [Nat.div_lt_iff_lt_mul (Nat.two_pow_pos k), ← Nat.pow_add]
    exact Nat.lt_of_lt_of_le hhigh (Nat.pow_le_pow_right Nat.two_pos (by omega))

/-- **Rounding** keeps a number above zero that is not below the least one. -/
theorem aboveZero_roundWithAccuracy {m : Nat} {e : Int} (hm : 0 < m) (he : -1074 ≤ m.log2 + e)
    (a : Accuracy) : AboveZero (roundWithAccuracy Format.binary64 .positive m e a) := by
  obtain ⟨hleft, -, hexponent⟩ := shiftToTargetExponent_bounds hm he a
  unfold roundWithAccuracy
  generalize shiftToTargetExponent Format.binary64 m e a = shifted at *
  dsimp only
  have hrounded : 0 < shifted.1.roundedMantissa :=
    Nat.lt_of_lt_of_le hleft (le_roundToNearestEven _ _)
  -- a mantissa that was rounded up to a power of two is shifted once more
  obtain ⟨hfinal, hsize, hrange⟩ :=
    shiftToTargetExponent_bounds (e := shifted.2) hrounded (by omega) .exact
  rw [dif_neg (Nat.ne_of_gt hfinal)]
  exact .finite _ _ _ hsize hrange

/-- A natural number above zero is shifted until it has enough bits, and rounded. -/
theorem ofNat_eq_roundWithAccuracy {n : Nat} (hn : 0 < n) : UnpackedFloat.ofNat Format.binary64 n =
    roundWithAccuracy Format.binary64 .positive (n * 2 ^ (52 - n.log2)) (-(52 - n.log2 : Nat))
      .exact := by
  have hcompare : compare (n : Int) 0 = .gt := compare_gt_iff_gt.mpr (by omega)
  have hshift : (0 - max ((n.log2 : Int) + 1 + 0 - 53) (-1074)).toNat = 52 - n.log2 := by omega
  show UnpackedFloat.normalize Format.binary64 n 0 .positive = _
  rw [UnpackedFloat.normalize, hcompare]
  show UnpackedFloat.round Format.binary64 .positive n 0 = _
  unfold UnpackedFloat.round decreaseExponent
  dsimp only
  rw [targetExponent_eq, totalExponent, Nat.shiftLeft_eq, hshift, zero_sub]

/-- It is rounded to a double above zero. -/
theorem aboveZero_ofNat {n : Nat} (hn : 0 < n) :
    AboveZero (UnpackedFloat.ofNat Format.binary64 n) := by
  rw [ofNat_eq_roundWithAccuracy hn]
  refine aboveZero_roundWithAccuracy (Nat.mul_pos hn (Nat.two_pow_pos _)) ?_ .exact
  have hlog := log2_add_le hn (52 - n.log2)
  omega

/-! ## (2) Packing -/

section Fields

variable {b : BitVec Format.binary64.numBits}

/-- Bits without a sign stand for a double above zero, unless they stand for zero or for none. -/
theorem aboveZero_unpack (hsign : unpackSign b = 0#1)
    (hdefined : unpackExponent b = -1#_ → unpackMantissa b = 0#_)
    (hzero : unpackExponent b = 0#_ → unpackMantissa b ≠ 0#_) :
    AboveZero (unpack Format.binary64 b) := by
  have hpositive : Sign.ofBitVec (unpackSign b) = .positive := if_pos hsign
  have hmantissa : (unpackMantissa b).toNat < 2 ^ 52 := (unpackMantissa b).isLt
  unfold unpack
  simp only [hpositive]
  split
  · rename_i hexponent
    rw [if_pos (hdefined hexponent)]
    exact .infinity
  · split
    · rename_i hexponent
      rw [dif_neg (hzero hexponent)]
      refine .finite _ _ _ (Nat.lt_of_lt_of_le hmantissa (by norm_num)) ?_
      rw [hexponent]
      decide
    · rename_i hexponent
      have hpos : 0 < (unpackExponent b).toNat :=
        Nat.pos_of_ne_zero fun h => hexponent (BitVec.eq_of_toNat_eq h)
      have hbias : Format.binary64.exponentBias = 1023 := rfl
      refine .finite _ _ _ (1#1 ++ unpackMantissa b).isLt ?_
      rw [hbias]
      omega

theorem aboveZero_packComponents {e : BitVec 11} {m : BitVec 52} (hdefined : e = -1#_ → m = 0#_)
    (hzero : e = 0#_ → m ≠ 0#_) :
    AboveZero (unpack Format.binary64 (packComponents Format.binary64 .positive e m)) := by
  apply aboveZero_unpack
  · exact unpackSign_packComponents _ _ _
  · rw [unpackExponent_packComponents, unpackMantissa_packComponents]
    exact hdefined
  · rw [unpackExponent_packComponents, unpackMantissa_packComponents]
    exact hzero

/-- Putting the parts of a double above zero together gives one above zero, also if it overflows. -/
theorem AboveZero.pack {u : UnpackedFloat} (h : AboveZero u) :
    AboveZero (unpack Format.binary64 (UnpackedFloat.pack Format.binary64 u)) := by
  cases h with
  | infinity => exact aboveZero_packComponents (fun _ => rfl) (fun h => absurd h (by decide))
  | finite m e hm hsize he =>
    unfold UnpackedFloat.pack
    dsimp only
    split
    · exact aboveZero_packComponents (fun _ => rfl) (fun h => absurd h (by decide))
    · rename_i hsmall
      have hbias : Format.binary64.exponentBias = 1023 := rfl
      rw [hbias] at hsmall ⊢
      split
      · -- the exponent is neither the one of zero nor the one of the infinity
        refine aboveZero_packComponents (fun hexponent => ?_) (fun hexponent => ?_)
        all_goals
          have hnat := congrArg BitVec.toNat hexponent
          simp at hnat hsmall
          omega
      · rename_i hwidth
        refine aboveZero_packComponents (fun hexponent => absurd hexponent (by decide))
          fun _ hzero => ?_
        -- a mantissa of less than 53 bits fits into its field
        have hlog : m.log2 < 53 := (Nat.log2_lt (Nat.ne_of_gt hm)).mpr hsize
        have hfield : m < 2 ^ 52 := by
          have hne : m.log2 + 1 ≠ 53 := hwidth
          exact (Nat.log2_lt (Nat.ne_of_gt hm)).mp (by omega)
        have hnat := congrArg BitVec.toNat hzero
        rw [BitVec.toNat_ofNat, Nat.mod_eq_of_lt hfield] at hnat
        exact Nat.ne_of_gt hm hnat

end Fields

/-! ## (3) Numbers of the caller -/

/-- The parts of a double that is no number. -/
theorem parts_of_ofFloat?_none {x : Float} (h : Binary.ofFloat? x = none) :
    parts x = .notANumber ∨ ∃ s, parts x = .infinity s := by
  have hexponent : @unpackExponent Format.binary64 x.toBits.toBitVec = -1#_ := by
    apply BitVec.eq_of_toNat_eq
    rw [toNat_unpackExponent, UInt64.toNat_toBitVec]
    unfold Binary.ofFloat? at h
    dsimp only at h
    rw [twoTo_eq, twoTo_eq, twoTo_eq] at h
    split at h
    · assumption
    · split at h <;> cases h
  have hunpack : parts x = if @unpackMantissa Format.binary64 x.toBits.toBitVec = 0#_
      then .infinity (Sign.ofBitVec (@unpackSign Format.binary64 x.toBits.toBitVec))
      else .notANumber := by
    show unpack Format.binary64 x.toBits.toBitVec = _
    unfold unpack
    simp only [hexponent]
    rfl
  rw [hunpack]
  split
  · exact .inr ⟨_, rfl⟩
  · exact .inl rfl

/-- A double whose parts are a number above zero is above zero. -/
theorem aboveZero_of_ofFloat? {x : Float} {b : Binary} (h : Binary.ofFloat? x = some b)
    (hsign : b.negative = false) (hmantissa : b.mantissa ≠ 0) : AboveZero (parts x) := by
  unfold Binary.ofFloat? at h
  dsimp only at h
  rw [twoTo_eq, twoTo_eq, twoTo_eq] at h
  have hbits : x.toBits.toNat < 2 ^ 64 := x.toBits.toNat_lt
  show AboveZero (unpack Format.binary64 x.toBits.toBitVec)
  have hfields := @toNat_unpackSign x.toBits.toBitVec
  have hexponent := @toNat_unpackExponent x.toBits.toBitVec
  have hfraction := @toNat_unpackMantissa x.toBits.toBitVec
  rw [UInt64.toNat_toBitVec] at hfields hexponent hfraction
  split at h
  · cases h
  rename_i hfinite
  refine aboveZero_unpack (BitVec.eq_of_toNat_eq ?_) (fun hinfinite => ?_) (fun hzero hnone => ?_)
  · -- the sign bit is the sign
    rw [hfields]
    show x.toBits.toNat / 2 ^ 63 = 0
    have hne : (x.toBits.toNat / 2 ^ 63 == 1) = false := by
      split at h <;> (cases h; exact hsign)
    have hne' := beq_eq_false_iff_ne.mp hne
    omega
  · rw [hinfinite] at hexponent
    exact absurd hexponent.symm hfinite
  · have hbiased : x.toBits.toNat / 2 ^ 52 % 2 ^ 11 = 0 := by rw [← hexponent, hzero]; rfl
    rw [if_pos hbiased] at h
    cases h
    exact hmantissa (by rw [← hfraction, hnone]; rfl)

/-- A double that compares above zero is above zero. -/
theorem aboveZero_of_compareRealInt {x : Float} (h : compareRealInt x 0 = some .gt) :
    AboveZero (parts x) := by
  unfold compareRealInt at h
  split at h
  · rename_i b hb
    have hgt : b.compareInt 0 = .gt := Option.some.inj h
    unfold Binary.compareInt at hgt
    obtain ⟨negative, m, e⟩ := b
    -- a number compares with zero as its signed mantissa does
    have hsigned : 0 < (if negative then -(m : Int) else m) := by
      dsimp only at hgt
      split at hgt
      · have hpos := compare_gt_iff_gt.mp hgt
        exact pos_of_mul_pos_left hpos (Int.natCast_nonneg _)
      · rw [zero_mul] at hgt
        exact compare_gt_iff_gt.mp hgt
    refine aboveZero_of_ofFloat? hb ?_ ?_
    · cases negative with
      | false => rfl
      | true =>
        rw [if_pos rfl] at hsigned
        omega
    · rintro rfl
      split at hsigned <;> omega
  · rename_i hnone
    split at h
    · cases h
    · rename_i hdefined
      rcases parts_of_ofFloat?_none hnone with hx | ⟨s, hx⟩
      · exact absurd (show (parts x).isNaN = true by rw [hx]; rfl) hdefined
      · rw [hx]
        cases s with
        | positive => exact .infinity
        | negative =>
          -- the negative infinity is below zero
          have hlt : Scalar.lt x Scalar.zero = true := by
            rw [scalar_lt_eq, hx]
            rfl
          have hbelow : x < 0 := of_decide_eq_true hlt
          rw [if_pos hbelow] at h
          cases h

/-- The product of a double above zero with one is above zero. -/
theorem AboveZero.mul_one {u : UnpackedFloat} (h : AboveZero u) :
    AboveZero (UnpackedFloat.mul Format.binary64 u (parts 1.0)) := by
  have hone : parts 1.0 = .finite .positive (2 ^ 52) (-52) (by decide) := rfl
  rw [hone]
  cases h with
  | infinity => exact .infinity
  | finite m e hm hsize he =>
    refine aboveZero_roundWithAccuracy (Nat.mul_pos hm (Nat.two_pow_pos 52)) ?_ .exact
    have hlog := log2_add_le hm 52
    omega

/-- A short natural number is converted and multiplied by one. -/
theorem ofScientific_of_short {k : Nat} (hshort : k < 2 ^ 53) :
    Float.ofScientific k false 0 = k.toUInt64.toFloat * 1.0 := by
  unfold Float.ofScientific
  rw [dif_pos ⟨hshort, Nat.zero_le 22⟩]
  rfl

theorem parts_toFloat_of_short {k : Nat} (hshort : k < 2 ^ 53) : parts k.toUInt64.toFloat =
    unpack Format.binary64
      (UnpackedFloat.pack Format.binary64 (UnpackedFloat.ofNat Format.binary64 k)) := by
  have hword : k.toUInt64.toNat = k := by
    rw [Nat.toUInt64_eq, UInt64.toNat_ofNat']
    omega
  show unpack Format.binary64 (UnpackedFloat.pack Format.binary64
    (UnpackedFloat.ofNat Format.binary64 k.toUInt64.toNat)) = _
  rw [hword]

/-- A long one is rounded. -/
theorem parts_ofScientific_of_long {k : Nat} (hlong : 2 ^ 53 ≤ k) :
    parts (Float.ofScientific k false 0) =
    unpack Format.binary64 (UnpackedFloat.pack Format.binary64
      (roundWithAccuracy Format.binary64 .positive (k * 2 ^ 53) (-53) .exact)) := by
  have hrounded : UnpackedFloat.ofScientific Format.binary64 k 0 =
      roundWithAccuracy Format.binary64 .positive (k * 2 ^ 53) (-53) .exact := by
    unfold UnpackedFloat.ofScientific
    have hlarge : ¬ (0 : Int) < -(2 ^ 11 + k.log2) := by omega
    rw [dif_neg (by omega : k ≠ 0), if_neg (by decide), if_neg hlarge, if_pos (Int.le_refl 0)]
    show roundWithAccuracy Format.binary64 .positive (k <<< 53 * 1) (-53) .exact = _
    rw [Nat.mul_one, Nat.shiftLeft_eq]
  unfold Float.ofScientific
  rw [dif_neg fun h => absurd h.1 (Nat.not_lt.mpr hlong), ← hrounded]
  rfl

/-- An integer above zero becomes a double above zero. -/
theorem aboveZero_ofInt {n : Int} (hn : 0 < n) : AboveZero (parts (Float.ofInt n)) := by
  obtain ⟨k, rfl⟩ := Int.eq_ofNat_of_zero_le (Int.le_of_lt hn)
  have hk : 0 < k := by omega
  show AboveZero (parts (Float.ofScientific k false 0))
  by_cases hshort : k < 2 ^ 53
  · have hconverted : AboveZero (parts k.toUInt64.toFloat) := by
      rw [parts_toFloat_of_short hshort]
      exact (aboveZero_ofNat hk).pack
    rw [ofScientific_of_short hshort]
    exact hconverted.mul_one.pack
  · rw [parts_ofScientific_of_long (Nat.not_lt.mp hshort)]
    have hlog := log2_add_le hk 53
    exact (aboveZero_roundWithAccuracy (Nat.mul_pos hk (Nat.two_pow_pos 53)) (by omega) .exact).pack

end Double

/-- A datum is accepted as a singularity factor exactly if it compares above zero, and is then taken
as it is in arithmetic. -/
theorem Datum.toSingularityFactor_eq_ok_iff {d : Datum} {x : Float} :
    d.toSingularityFactor = .ok x ↔ d.compareWith 0 = .ok (some .gt) ∧ d.toFactor = .ok x := by
  unfold toSingularityFactor isAbove
  rcases d.compareWith 0 with cause | order
  · exact ⟨nofun, fun h => nomatch h.1⟩
  · by_cases horder : order = some .gt
    · subst horder
      exact ⟨fun h => ⟨rfl, h⟩, fun h => h.2⟩
    · constructor
      · intro h
        have hthrow :
            (if decide (order = some .gt) then d.toFactor else throw .factorSign) = .ok x := h
        rw [decide_eq_false horder] at hthrow
        cases hthrow
      · exact fun h => absurd (Except.ok.inj h.1) horder

/-- **An accepted singularity factor is above zero.** -/
theorem Datum.scalar_lt_of_toSingularityFactor {d : Datum} {x : Float}
    (h : d.toSingularityFactor = .ok x) : Scalar.lt Scalar.zero x = true := by
  obtain ⟨hcompare, hfactor⟩ := toSingularityFactor_eq_ok_iff.mp h
  cases d with
  | bool b =>
    cases b with
    | true =>
      cases hfactor
      decide +kernel
    | false => cases hcompare
  | int n =>
    have hn : 0 < n := compare_gt_iff_gt.mp (Option.some.inj (Except.ok.inj hcompare))
    have hx : x = Float.ofInt n := by
      have hfactor : realOfInt n = .ok x := hfactor
      unfold realOfInt at hfactor
      dsimp only at hfactor
      split at hfactor
      · exact (Except.ok.inj hfactor).symm
      · cases hfactor
    rw [hx]
    exact (Double.aboveZero_ofInt hn).scalar_lt
  | real y =>
    cases hfactor
    exact (Double.aboveZero_of_compareRealInt (Except.ok.inj hcompare)).scalar_lt
  | null => cases hcompare
  | text s => cases hcompare
  | list items => cases hcompare
  | record fields => cases hcompare

end NewtonRaphson
