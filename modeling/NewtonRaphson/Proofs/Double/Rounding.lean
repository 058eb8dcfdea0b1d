import NewtonRaphson.Proofs.Binary.Shortening
import NewtonRaphson.Proofs.OrderedScalar.Positive

/-! # Rounding to doubles

The operations on doubles take bits apart into sign, mantissa and exponent, compute with these,
round and put the bits together again. What comes out is said here in terms of exact numbers and of
how these are shortened to a precision, so that nothing further on is about bits.

* **`Double.ofFloat?_eq`**, **`Double.unpack_pack_finite`** — parts and numbers are the same thing,
  and parts that are put together can be taken apart again.
* **`Double.parts_neg`**, **`Double.parts_abs`** — what changes the sign leaves the other parts
  alone.
* **`Double.roundedMantissa_shiftRight`** — shifting with two further bits rounds to the nearest
  quotient.
* **`Double.IsRounded`** — a double is what a number is rounded to.
* **`Double.IsRounded.eq_zero_iff`**, **`Double.IsRounded.isFinite_iff`** — which numbers are lost,
  and which are out of range.
* **`Double.isRounded_mul`**, **`Double.isRounded_nearest`**, **`Double.isRounded_square`** —
  products, nearest singles and squares are rounded numbers. -/

namespace NewtonRaphson

open Float.Model (UnpackedFloat Format totalExponent)
open Float.Model.UnpackedFloat

namespace Double

/-! ## (1) Parts and numbers -/

/-- Whether a sign is that of a number below zero. -/
def isNegative : Sign → Bool
  | .negative => true
  | .positive => false

/-- The number that the parts of a double stand for; an infinity and the undefined value stand for
none. -/
def number? : UnpackedFloat → Option Binary
  | .zero s => some ⟨isNegative s, 0, -1074⟩
  | .finite s m e _ => some ⟨isNegative s, m, e⟩
  | .infinity _ | .notANumber => none

/-- Parts are known by sign, mantissa and exponent. -/
theorem finite_congr {s : Sign} {m m' : Nat} {e e' : Int} {hm : 0 < m} {hm' : 0 < m'}
    (hmantissa : m = m') (hexponent : e = e') :
    UnpackedFloat.finite s m e hm = .finite s m' e' hm' := by
  subst hmantissa hexponent
  rfl

section Fields

variable {b : BitVec Format.binary64.numBits}

theorem toNat_fullMantissa :
    (1#1 ++ unpackMantissa b).toNat = 2 ^ 52 + (unpackMantissa b).toNat := by
  have hmantissa : (unpackMantissa b).toNat < 2 ^ 52 := (unpackMantissa b).isLt
  rw [BitVec.toNat_append, Nat.shiftLeft_eq]
  show 1 * 2 ^ 52 ||| (unpackMantissa b).toNat = _
  rw [← Nat.shiftLeft_eq, ← Nat.shiftLeft_add_eq_or_of_lt hmantissa, Nat.shiftLeft_eq, Nat.one_mul]

/-- Bits with the largest exponent stand for no number. -/
theorem number?_unpack_of_largest (h : unpackExponent b = -1#_) :
    number? (unpack Format.binary64 b) = none := by
  unfold unpack
  dsimp only
  rw [if_pos h]
  split <;> rfl

/-- Bits with the exponent zero stand for a multiple of the least number. -/
theorem unpack_of_zero (h : unpackExponent b = 0#_) :
    unpackMantissa b = 0#_ ∧ unpack Format.binary64 b = .zero (Sign.ofBitVec (unpackSign b)) ∨
      ∃ hm, unpack Format.binary64 b =
        .finite (Sign.ofBitVec (unpackSign b)) (unpackMantissa b).toNat (-1074) hm := by
  have hlarge : unpackExponent b ≠ -1#_ := by rw [h]; decide
  unfold unpack
  dsimp only
  rw [if_neg hlarge, if_pos h]
  split
  · rename_i hzero
    exact .inl ⟨hzero, rfl⟩
  · rename_i hmantissa
    refine .inr ⟨Nat.pos_of_ne_zero fun hzero => hmantissa (BitVec.eq_of_toNat_eq hzero), ?_⟩
    simp only [h]
    rfl

/-- All others have a first bit that is left out. -/
theorem unpack_of_ne (hlarge : unpackExponent b ≠ -1#_) (hsmall : unpackExponent b ≠ 0#_) :
    ∃ hm, unpack Format.binary64 b = .finite (Sign.ofBitVec (unpackSign b))
      (2 ^ 52 + (unpackMantissa b).toNat) ((unpackExponent b).toNat - 1075) hm := by
  unfold unpack
  dsimp only
  rw [if_neg hlarge, if_neg hsmall]
  exact ⟨Nat.lt_of_lt_of_le (Nat.two_pow_pos 52) (Nat.le_add_right _ _),
    finite_congr toNat_fullMantissa rfl⟩

end Fields

/-- The parts that are read off the bits are the ones that a double is taken apart into. -/
theorem ofFloat?_eq (x : Float) : Binary.ofFloat? x = number? (parts x) := by
  have hsign := @toNat_unpackSign x.toBits.toBitVec
  have hexponent := @toNat_unpackExponent x.toBits.toBitVec
  have hmantissa := @toNat_unpackMantissa x.toBits.toBitVec
  rw [UInt64.toNat_toBitVec] at hsign hexponent hmantissa
  have hnegative : isNegative (Sign.ofBitVec (@unpackSign Format.binary64 x.toBits.toBitVec)) =
      (x.toBits.toNat / 2 ^ 63 == 1) := by
    rw [← hsign]
    generalize @unpackSign Format.binary64 x.toBits.toBitVec = s
    revert s
    decide
  show _ = number? (unpack Format.binary64 x.toBits.toBitVec)
  unfold Binary.ofFloat?
  dsimp only
  rw [twoTo_eq, twoTo_eq, twoTo_eq, ← hexponent, ← hmantissa, ← hnegative]
  by_cases hlarge : @unpackExponent Format.binary64 x.toBits.toBitVec = -1#_
  · have hnat : (@unpackExponent Format.binary64 x.toBits.toBitVec).toNat = 2047 :=
      congrArg BitVec.toNat hlarge
    rw [number?_unpack_of_largest hlarge, if_pos hnat]
  have hnat : (@unpackExponent Format.binary64 x.toBits.toBitVec).toNat ≠ 2047 :=
    fun h => hlarge (BitVec.eq_of_toNat_eq h)
  rw [if_neg hnat]
  by_cases hsmall : @unpackExponent Format.binary64 x.toBits.toBitVec = 0#_
  · have hnat : (@unpackExponent Format.binary64 x.toBits.toBitVec).toNat = 0 :=
      congrArg BitVec.toNat hsmall
    rw [if_pos hnat]
    rcases unpack_of_zero hsmall with ⟨hzero, hunpack⟩ | ⟨hm, hunpack⟩
    · rw [hunpack, hzero]
      rfl
    · rw [hunpack]
      rfl
  · have hnat : (@unpackExponent Format.binary64 x.toBits.toBitVec).toNat ≠ 0 :=
      fun h => hsmall (BitVec.eq_of_toNat_eq h)
    obtain ⟨hm, hunpack⟩ := unpack_of_ne hlarge hsmall
    rw [if_neg hnat, hunpack]
    rfl

/-- A double that is a number is finite. -/
theorem isFinite_of_ofFloat? {x : Float} {b : Binary} (hb : Binary.ofFloat? x = some b) :
    x.isFinite = true := by
  show (parts x).isFinite = true
  rw [ofFloat?_eq] at hb
  cases hparts : parts x <;> rw [hparts] at hb <;> first | rfl | cases hb

theorem exists_ofFloat?_of_isFinite {x : Float} (h : x.isFinite = true) :
    ∃ b, Binary.ofFloat? x = some b := by
  have hfinite : (parts x).isFinite = true := h
  rw [ofFloat?_eq]
  cases hparts : parts x <;> rw [hparts] at hfinite <;> first | exact ⟨_, rfl⟩ | cases hfinite

/-- Parts that a double can have: a short mantissa, which is of full length unless the exponent is
the least. -/
structure IsCanonical (m : Nat) (e : Int) : Prop where
  size : m < 2 ^ 53
  least : -1074 ≤ e
  full : e = -1074 ∨ 2 ^ 52 ≤ m

/-- The parts of a double are canonical, and in range. -/
theorem isCanonical_of_ofFloat? {x : Float} {b : Binary} (h : Binary.ofFloat? x = some b) :
    IsCanonical b.mantissa b.exponent ∧ b.exponent ≤ 971 := by
  unfold Binary.ofFloat? at h
  dsimp only at h
  rw [twoTo_eq, twoTo_eq, twoTo_eq] at h
  split at h
  · cases h
  · split at h
    · cases h
      exact ⟨⟨by dsimp only; omega, le_rfl, .inl rfl⟩, by dsimp only; omega⟩
    · cases h
      exact ⟨⟨by dsimp only; omega, by dsimp only; omega, .inr (Nat.le_add_right _ _)⟩,
        by dsimp only; omega⟩

/-- A sign is known by its bit. -/
theorem ofBitVec_toBitVec (s : Sign) : Sign.ofBitVec (Sign.toBitVec s) = s := by cases s <;> rfl

/-- A mantissa of full length is put together without its first bit. -/
theorem unpack_packComponents_of_full {s : Sign} {m : Nat} {e : Int} {hm : 0 < m}
    (hfull : 2 ^ 52 ≤ m) (hsize : m < 2 ^ 53) (hleast : -1074 ≤ e) (hrange : e ≤ 971) :
    unpack Format.binary64 (packComponents Format.binary64 s
      (BitVec.ofNat 11 (e + (1023 : Nat) + (52 : Nat)).toNat) (BitVec.ofNat 52 m)) =
      .finite s m e hm := by
  have hexponent : (BitVec.ofNat 11 (e + (1023 : Nat) + (52 : Nat)).toNat).toNat =
      (e + 1075).toNat := by
    rw [BitVec.toNat_ofNat]
    omega
  -- the exponent is neither that of infinities nor that of zero
  have hne {n : Nat} (hn : (e + 1075).toNat ≠ n % 2 ^ 11) :
      BitVec.ofNat 11 (e + (1023 : Nat) + (52 : Nat)).toNat ≠ BitVec.ofNat 11 n := by
    intro h
    have hnat := congrArg BitVec.toNat h
    rw [hexponent, BitVec.toNat_ofNat] at hnat
    exact hn hnat
  obtain ⟨hm', hunpack⟩ := @unpack_of_ne (packComponents Format.binary64 s
    (BitVec.ofNat 11 (e + (1023 : Nat) + (52 : Nat)).toNat) (BitVec.ofNat 52 m))
    (by
      rw [unpackExponent_packComponents]
      exact @hne 2047 (by omega))
    (by
      rw [unpackExponent_packComponents]
      exact @hne 0 (by omega))
  refine hunpack.trans ?_
  simp only [unpackSign_packComponents, unpackExponent_packComponents,
    unpackMantissa_packComponents, ofBitVec_toBitVec]
  refine finite_congr ?_ ?_
  · rw [BitVec.toNat_ofNat]
    omega
  · rw [hexponent]
    omega

/-- A shorter one has the least exponent. -/
theorem unpack_packComponents_of_short {s : Sign} {m : Nat} {hm : 0 < m} (hshort : m < 2 ^ 52) :
    unpack Format.binary64 (packComponents Format.binary64 s 0#11 (BitVec.ofNat 52 m)) =
      .finite s m (-1074) hm := by
  have hmantissa : (BitVec.ofNat 52 m).toNat = m := by
    rw [BitVec.toNat_ofNat, Nat.mod_eq_of_lt hshort]
  rcases @unpack_of_zero (packComponents Format.binary64 s 0#11 (BitVec.ofNat 52 m))
    unpackExponent_packComponents with ⟨hzero, -⟩ | ⟨hm', hunpack⟩
  · rw [unpackMantissa_packComponents] at hzero
    have hnat := congrArg BitVec.toNat hzero
    rw [hmantissa] at hnat
    exact absurd hnat (Nat.ne_of_gt hm)
  · refine hunpack.trans ?_
    simp only [unpackSign_packComponents, unpackMantissa_packComponents, ofBitVec_toBitVec]
    exact finite_congr hmantissa rfl

/-- **Canonical parts that are put together** can be taken apart again, if they are in range;
otherwise they make an infinity. -/
theorem unpack_pack_finite {s : Sign} {m : Nat} {e : Int} {hm : 0 < m} (h : IsCanonical m e) :
    unpack Format.binary64 (UnpackedFloat.pack Format.binary64 (.finite s m e hm)) =
      if e ≤ 971 then .finite s m e hm else .infinity s := by
  have hlog : m.log2 < 53 := (Nat.log2_lt (Nat.ne_of_gt hm)).mpr h.size
  have hfirst : 2 ^ m.log2 ≤ m := Nat.log2_self_le (Nat.ne_of_gt hm)
  have hbits : m < 2 ^ (m.log2 + 1) := Nat.lt_log2_self
  have hleast := h.least
  unfold UnpackedFloat.pack
  dsimp only
  by_cases hrange : e ≤ 971
  · have hbiased : ¬ 2 ^ 11 ≤ (e + (1023 : Nat) + (52 : Nat)).toNat + 1 := by omega
    rw [if_pos hrange]
    refine (congrArg (unpack Format.binary64) (if_neg hbiased)).trans ?_
    by_cases hwidth : m.log2 + 1 = 53
    · refine (congrArg (unpack Format.binary64) (if_pos hwidth)).trans ?_
      rw [show m.log2 = 52 by omega] at hfirst
      exact unpack_packComponents_of_full hfirst h.size hleast hrange
    · refine (congrArg (unpack Format.binary64) (if_neg hwidth)).trans ?_
      have hshort : m < 2 ^ 52 :=
        Nat.lt_of_lt_of_le hbits (Nat.pow_le_pow_right Nat.two_pos (by omega))
      obtain rfl : e = -1074 := h.full.resolve_right (Nat.not_le.mpr hshort)
      exact unpack_packComponents_of_short hshort
  · have hbiased : 2 ^ 11 ≤ (e + (1023 : Nat) + (52 : Nat)).toNat + 1 := by omega
    rw [if_neg hrange]
    refine (congrArg (unpack Format.binary64) (if_pos hbiased)).trans ?_
    unfold packedInfinity unpack
    simp only [unpackSign_packComponents, unpackExponent_packComponents,
      unpackMantissa_packComponents, ofBitVec_toBitVec]
    rfl

@[simp] theorem unpack_pack_zero (s : Sign) :
    unpack Format.binary64 (UnpackedFloat.pack Format.binary64 (.zero s)) = .zero s := by
  cases s <;> rfl

@[simp] theorem unpack_pack_infinity (s : Sign) :
    unpack Format.binary64 (UnpackedFloat.pack Format.binary64 (.infinity s)) = .infinity s := by
  cases s <;> rfl

@[simp] theorem unpack_pack_notANumber :
    unpack Format.binary64 (UnpackedFloat.pack Format.binary64 .notANumber) = .notANumber := rfl

/-! ### Signs -/

theorem abs_neg_parts (u : UnpackedFloat) : u.neg.abs = u.abs := by cases u <;> rfl

theorem abs_abs_parts (u : UnpackedFloat) : u.abs.abs = u.abs := by cases u <;> rfl

/-- What differs from the parts of a double by its sign alone is put together and taken apart
again. -/
theorem unpack_pack_of_abs {x : Float} {u : UnpackedFloat} (h : u.abs = (parts x).abs) :
    unpack Format.binary64 (UnpackedFloat.pack Format.binary64 u) = u := by
  rcases u with s | _ | s | ⟨s, m, e, hm⟩
  · exact unpack_pack_infinity s
  · exact unpack_pack_notANumber
  · exact unpack_pack_zero s
  · rcases hx : parts x with t | _ | t | ⟨t, n, f, hn⟩ <;> rw [hx] at h <;> cases h
    have hnumber : Binary.ofFloat? x = some ⟨isNegative t, m, e⟩ := by
      rw [ofFloat?_eq, hx]
      rfl
    obtain ⟨hcanonical, hrange⟩ := isCanonical_of_ofFloat? hnumber
    rw [unpack_pack_finite hcanonical, if_pos hrange]

@[simp] theorem unpack_pack_parts (x : Float) :
    unpack Format.binary64 (UnpackedFloat.pack Format.binary64 (parts x)) = parts x :=
  unpack_pack_of_abs rfl

theorem parts_neg (x : Float) : parts (-x) = (parts x).neg :=
  unpack_pack_of_abs (abs_neg_parts (parts x))

theorem parts_abs (x : Float) : parts x.abs = (parts x).abs :=
  unpack_pack_of_abs (abs_abs_parts (parts x))

/-- A number without its sign. -/
theorem ofFloat?_abs (x : Float) :
    Binary.ofFloat? x.abs = (Binary.ofFloat? x).map fun a => { a with negative := false } := by
  rw [ofFloat?_eq, ofFloat?_eq, parts_abs]
  cases parts x <;> rfl

/-! ### Operations -/

theorem parts_mul (x y : Float) :
    parts (x * y) = unpack Format.binary64 (UnpackedFloat.pack Format.binary64
      (UnpackedFloat.mul Format.binary64 (parts x) (parts y))) := rfl

theorem parts_add (x y : Float) :
    parts (x + y) = unpack Format.binary64 (UnpackedFloat.pack Format.binary64
      (UnpackedFloat.add Format.binary64 (parts x) (parts y))) := rfl

theorem parts_sub (x y : Float) :
    parts (x - y) = unpack Format.binary64 (UnpackedFloat.pack Format.binary64
      (UnpackedFloat.sub Format.binary64 (parts x) (parts y))) := rfl

theorem parts_sqrt (x : Float) :
    parts x.sqrt = unpack Format.binary64 (UnpackedFloat.pack Format.binary64
      (UnpackedFloat.sqrt Format.binary64 (parts x))) := rfl

/-! ## (2) Rounded mantissas -/

/-- What is left of a mantissa when bits are shifted out: the last of them, and whether there is
another one. -/
theorem shiftRight_succ (m k : Nat) :
    ExtendedMantissa.ofMantissaAndAccuracy m .exact >>> (k + 1) =
      ⟨m / 2 ^ (k + 1), m / 2 ^ k % 2 != 0, m % 2 ^ k != 0⟩ := by
  induction k with
  | zero =>
    show ExtendedMantissa.shiftRightOne ⟨m, false, false⟩ = _
    simp [ExtendedMantissa.shiftRightOne, Nat.mod_one]
  | succ k ih =>
    show ExtendedMantissa.shiftRightOne
        (ExtendedMantissa.ofMantissaAndAccuracy m .exact >>> (k + 1)) = _
    have hsticky : (m / 2 ^ k % 2 != 0 || m % 2 ^ k != 0) = (m % 2 ^ (k + 1) != 0) := by
      rw [Nat.mod_pow_succ]
      have hk := Nat.two_pow_pos k
      rcases Nat.mod_two_eq_zero_or_one (m / 2 ^ k) with hbit | hbit
      · simp [hbit]
      · simp [hbit]
    rw [ih, ExtendedMantissa.shiftRightOne]
    dsimp only
    rw [hsticky, Nat.div_div_eq_div_mul, ← Nat.pow_succ]

/-- **Shifting and rounding** gives the nearest quotient, and the even one of two. -/
theorem roundedMantissa_shiftRight (m k : Nat) :
    (ExtendedMantissa.ofMantissaAndAccuracy m .exact >>> k).roundedMantissa =
      roundHalfEven m (2 ^ k) := by
  cases k with
  | zero => exact (roundHalfEven_one m).symm
  | succ k =>
    rw [shiftRight_succ]
    have hrest : m % 2 ^ (k + 1) = m % 2 ^ k + 2 ^ k * (m / 2 ^ k % 2) := Nat.mod_pow_succ
    have hlow : m % 2 ^ k < 2 ^ k := Nat.mod_lt m (Nat.two_pow_pos k)
    unfold roundHalfEven
    dsimp only
    rw [hrest, Nat.pow_succ]
    generalize m / (2 ^ k * 2) = quotient
    have hhalf : 0 < 2 ^ k := Nat.two_pow_pos k
    generalize m / 2 ^ k = bits at *
    generalize m % 2 ^ k = low at *
    generalize 2 ^ k = half at *
    -- the last bit tells on which side of one half the rest is, the others whether it is exactly
    -- there
    rcases Nat.mod_two_eq_zero_or_one bits with hbit | hbit <;> rw [hbit] <;>
      rcases Nat.eq_zero_or_pos low with rfl | hpos
    · rw [if_pos (by omega)]
      rfl
    · have hsticky : (low != 0) = true := bne_iff_ne.mpr (Nat.ne_of_gt hpos)
      rw [if_pos (by omega), hsticky]
      rfl
    · rw [if_neg (by omega), if_neg (by omega)]
      rfl
    · have hsticky : (low != 0) = true := bne_iff_ne.mpr (Nat.ne_of_gt hpos)
      rw [if_neg (by omega), if_pos (by omega), hsticky]
      rfl

/-- A short mantissa with an exponent in range is not shifted any more. -/
theorem shiftToTargetExponent_of_lt {m : Nat} {e : Int} (hm : m < 2 ^ 53) (he : -1074 ≤ e) :
    shiftToTargetExponent Format.binary64 m e .exact = (⟨m, false, false⟩, e) := by
  have hlog : m.log2 ≤ 52 := by
    by_cases hzero : m = 0
    · rw [hzero]
      decide
    · exact Nat.lt_succ_iff.mp ((Nat.log2_lt hzero).mpr hm)
  have hshift : (Format.binary64.targetExponent (totalExponent m e) - e).toNat = 0 := by
    rw [targetExponent_eq, totalExponent]
    omega
  unfold shiftToTargetExponent shiftToExponent
  dsimp only
  rw [hshift]
  exact congrArg (Prod.mk _) (Int.add_zero e)

/-- One that was rounded up to the next power of two loses its last bit, which is zero. -/
theorem shiftToTargetExponent_of_eq {e : Int} (he : -1074 ≤ e) :
    shiftToTargetExponent Format.binary64 (2 ^ 53) e .exact = (⟨2 ^ 52, false, false⟩, e + 1) := by
  have hshift : (Format.binary64.targetExponent (totalExponent (2 ^ 53) e) - e).toNat = 1 := by
    rw [targetExponent_eq, totalExponent, Nat.log2_two_pow]
    omega
  unfold shiftToTargetExponent shiftToExponent
  dsimp only
  rw [hshift]
  rfl

/-- Rounding adds one at most. -/
theorem roundToNearestEven_le (m : Nat) (a : Accuracy) : a.roundToNearestEven m ≤ m + 1 := by
  rcases a with _ | (_ | _ | _)
  case inexact.eq => exact Nat.add_le_add_left (Nat.lt_succ_iff.mp (Nat.mod_lt m Nat.two_pos)) m
  case inexact.gt => exact Nat.le_refl _
  all_goals exact Nat.le_succ m

section Format

variable {b : Binary} {k : Nat} (hk : Binary.formatExponent 53 (-1074) b = b.exponent + k)
include hk

/-- The shift to the exponent of the format. -/
theorem shiftToTargetExponent_eq (a : Accuracy) :
    shiftToTargetExponent Format.binary64 b.mantissa b.exponent a =
      (ExtendedMantissa.ofMantissaAndAccuracy b.mantissa a >>> k, b.exponent + k) := by
  have htarget : Format.binary64.targetExponent (totalExponent b.mantissa b.exponent) =
      b.exponent + k := by
    rw [targetExponent_eq, totalExponent, ← hk, Binary.formatExponent]
    push_cast
    congr 1
    ring
  have hshift : (b.exponent + k - b.exponent).toNat = k := by omega
  unfold shiftToTargetExponent shiftToExponent
  dsimp only
  rw [htarget, hshift]

/-- It leaves 53 bits of a mantissa at most, and so many unless the exponent is the least one. -/
theorem div_two_pow_bounds (hb : b.mantissa ≠ 0) :
    b.mantissa / 2 ^ k < 2 ^ 53 ∧ -1074 ≤ b.exponent + k ∧
      (b.exponent + k = -1074 ∨ 2 ^ 52 ≤ b.mantissa / 2 ^ k) := by
  have hlow : 2 ^ b.mantissa.log2 ≤ b.mantissa := Nat.log2_self_le hb
  have hhigh : b.mantissa < 2 ^ (b.mantissa.log2 + 1) := Nat.lt_log2_self
  obtain ⟨hplace, hleast, hfull⟩ : b.mantissa.log2 ≤ k + 52 ∧ -1074 ≤ b.exponent + k ∧
      (b.exponent + k = -1074 ∨ b.mantissa.log2 = k + 52) := by
    unfold Binary.formatExponent at hk
    omega
  refine ⟨?_, hleast, hfull.imp_right fun hwidth => ?_⟩
  · rw [Nat.div_lt_iff_lt_mul (Nat.two_pow_pos k), ← Nat.pow_add]
    exact Nat.lt_of_lt_of_le hhigh (Nat.pow_le_pow_right Nat.two_pos (by omega))
  · rw [Nat.le_div_iff_mul_le (Nat.two_pow_pos k), ← Nat.pow_add, Nat.add_comm, ← hwidth]
    exact hlow

/-- **What rounding gives**, if the exponent is not above that of the format: nothing, or canonical
parts with the value of the rounded mantissa. -/
theorem roundWithAccuracy_cases (s : Sign) (a : Accuracy) (hb : b.mantissa ≠ 0) :
    (ExtendedMantissa.ofMantissaAndAccuracy b.mantissa a >>> k).roundedMantissa = 0 ∧
        roundWithAccuracy Format.binary64 s b.mantissa b.exponent a = .zero s ∨
      ∃ m e hm, roundWithAccuracy Format.binary64 s b.mantissa b.exponent a = .finite s m e hm ∧
        IsCanonical m e ∧
        (m : ℚ) * 2 ^ e =
          (ExtendedMantissa.ofMantissaAndAccuracy b.mantissa a >>> k).roundedMantissa *
          2 ^ (b.exponent + k) := by
  obtain ⟨hsize, hleast, hfull⟩ := div_two_pow_bounds hk hb
  have hleft := mantissa_shiftRight (ExtendedMantissa.ofMantissaAndAccuracy b.mantissa a) k
  rw [mantissa_ofMantissaAndAccuracy] at hleft
  rw [← hleft] at hsize hfull
  unfold roundWithAccuracy
  rw [shiftToTargetExponent_eq hk]
  dsimp only
  generalize ExtendedMantissa.ofMantissaAndAccuracy b.mantissa a >>> k = shifted at *
  have hround : shifted.roundedMantissa ≤ 2 ^ 53 :=
    Nat.le_trans (roundToNearestEven_le _ _) hsize
  have hgrow : shifted.mantissa ≤ shifted.roundedMantissa := le_roundToNearestEven _ _
  generalize shifted.roundedMantissa = rounded at *
  by_cases hzero : rounded = 0
  · refine .inl ⟨hzero, ?_⟩
    rw [shiftToTargetExponent_of_lt (by omega) hleast, dif_pos hzero]
  · refine .inr ?_
    rcases Nat.lt_or_eq_of_le hround with hlt | heq
    · rw [shiftToTargetExponent_of_lt hlt hleast, dif_neg hzero]
      exact ⟨rounded, _, _, rfl, ⟨hlt, hleast, hfull.imp_right fun h => Nat.le_trans h hgrow⟩, rfl⟩
    · rw [heq, shiftToTargetExponent_of_eq hleast, dif_neg (Nat.ne_of_gt (Nat.two_pow_pos 52))]
      refine ⟨2 ^ 52, _, _, rfl, ⟨by decide, by omega, .inr le_rfl⟩, ?_⟩
      rw [zpow_add_one₀ (by norm_num)]
      push_cast
      ring

end Format

end Double

/-! ## (3) Rounded numbers -/

namespace Precision

/-- The number of significant bits of a precision. -/
def bits : Precision → Nat
  | single => 24
  | double => 53

/-- The least exponent of a precision, that of its least number above zero. -/
def least : Precision → Int
  | single => -149
  | double => -1074

/-- The exponent of the least power of two that is out of the range of a precision. -/
def top : Precision → Int
  | single => 128
  | double => 1024

theorem bits_pos (p : Precision) : 0 < p.bits := by cases p <;> decide

theorem least_add_bits_le_top (p : Precision) : p.least + p.bits ≤ p.top := by cases p <;> decide

theorem least_double_le (p : Precision) : -1074 ≤ p.least := by cases p <;> decide

end Precision

namespace Double

/-- The sign of a number. -/
def signOf (negative : Bool) : Sign := if negative then .negative else .positive

/-- A double is what a number **is rounded to** in a precision: an infinity, if the shortened number
is out of range, and otherwise a double of its sign and value. -/
inductive IsRounded (p : Precision) (b : Binary) (x : Float) : Prop where
  /-- The shortened number is out of range. -/
  | infinity (hreaches : (b.shorten p.bits p.least).reaches p.top = true)
      (hx : parts x = .infinity (signOf b.negative))
  /-- The shortened number is in range. -/
  | finite {c : Binary} (hreaches : (b.shorten p.bits p.least).reaches p.top = false)
      (hx : Binary.ofFloat? x = some c) (hsign : c.negative = b.negative)
      (hvalue : c.magnitude = (b.shorten p.bits p.least).magnitude)

section IsRounded

variable {p : Precision} {b : Binary} {x : Float}

/-- Either zero. -/
def IsZero (x : Float) : Prop := ∃ s, parts x = .zero s

/-- A double compares equal to zero exactly if it is a zero. -/
theorem eq_zero_iff : Scalar.eq x Scalar.zero = true ↔ IsZero x := by
  show (parts x).beq (.zero .positive) = true ↔ _
  unfold IsZero
  rcases parts x with (_ | _) | _ | s | ⟨_ | _, m, e, hm⟩
  case zero => exact iff_of_true rfl ⟨s, rfl⟩
  all_goals exact iff_of_false Bool.false_ne_true nofun

theorem isZero_iff : IsZero x ↔ ∃ b, Binary.ofFloat? x = some b ∧ b.magnitude = 0 := by
  rw [ofFloat?_eq]
  constructor
  · rintro ⟨s, hx⟩
    rw [hx]
    exact ⟨_, rfl, Binary.magnitude_eq_zero_iff.mpr rfl⟩
  · rintro ⟨b, hb, hzero⟩
    rw [Binary.magnitude_eq_zero_iff] at hzero
    rcases hx : parts x with _ | _ | s | ⟨s, m, e, hm⟩
    · rw [hx] at hb
      cases hb
    · rw [hx] at hb
      cases hb
    · exact ⟨s, hx⟩
    · rw [hx] at hb
      cases hb
      exact absurd hzero (Nat.ne_of_gt hm)

/-- A number of a double is zero exactly if the double is a zero. -/
theorem isZero_iff_magnitude (hb : Binary.ofFloat? x = some b) : IsZero x ↔ b.magnitude = 0 := by
  rw [isZero_iff, hb]
  exact ⟨fun ⟨b', hb', hzero⟩ => Option.some.inj hb' ▸ hzero, fun hzero => ⟨b, rfl, hzero⟩⟩

/-- A number above zero is not zero, and it is not at most zero. -/
theorem not_isZero_of_lt (hpos : Scalar.lt Scalar.zero x = true) :
    ¬ IsZero x ∧ Scalar.le x Scalar.zero = false := by
  rw [scalar_lt_eq] at hpos
  rw [scalar_le_eq]
  unfold IsZero
  generalize parts x = u at hpos ⊢
  rcases u with (_ | _) | _ | s | ⟨_ | _, m, e, hm⟩ <;> cases hpos <;> exact ⟨nofun, rfl⟩

/-- A number of a double is at least the least one, if it is not zero. -/
theorem le_magnitude_of_ne_zero (hb : Binary.ofFloat? x = some b) (hne : b.magnitude ≠ 0) :
    2 ^ (-1074 : Int) ≤ b.magnitude := by
  obtain ⟨hcanonical, -⟩ := isCanonical_of_ofFloat? hb
  have hmantissa : 1 ≤ b.mantissa :=
    Nat.pos_of_ne_zero ((not_congr Binary.magnitude_eq_zero_iff).mp hne)
  calc (2 : ℚ) ^ (-1074 : Int) ≤ 2 ^ b.exponent :=
        zpow_le_zpow_right₀ (by norm_num) hcanonical.least
    _ = (1 : Nat) * 2 ^ b.exponent := by rw [Nat.cast_one, one_mul]
    _ ≤ b.magnitude := (Binary.mul_zpow_le_iff _ _ _).mpr hmantissa

/-- A number that is rounded to a zero is at most half of the least one. -/
theorem IsRounded.eq_zero_iff (h : IsRounded p b x) :
    IsZero x ↔ b.magnitude ≤ 2 ^ (p.least - 1) := by
  rw [isZero_iff, ← Binary.shorten_eq_zero_iff p.bits_pos, ← Binary.magnitude_eq_zero_iff]
  cases h with
  | infinity hreaches hx =>
    rw [ofFloat?_eq, hx, Binary.reaches_iff] at *
    refine iff_of_false nofun fun hzero => ?_
    rw [hzero] at hreaches
    exact absurd hreaches (not_le.mpr (by positivity))
  | @finite b' hreaches hx hsign hvalue =>
    rw [hx, ← hvalue]
    exact ⟨fun ⟨b'', hb'', hzero⟩ => Option.some.inj hb'' ▸ hzero, fun hzero => ⟨b', rfl, hzero⟩⟩

/-- One that is rounded to a number is more than half a unit below the range of the precision. -/
theorem IsRounded.isFinite_iff (h : IsRounded p b x) :
    x.isFinite = true ↔ b.magnitude < 2 ^ p.top - 2 ^ (p.top - p.bits - 1) := by
  rw [← not_le, ← Binary.reaches_shorten_iff p.bits_pos p.least_add_bits_le_top]
  show (parts x).isFinite = true ↔ _
  cases h with
  | infinity hreaches hx =>
    rw [hx, hreaches]
    exact iff_of_false nofun (not_not.mpr rfl)
  | finite hreaches hx hsign hvalue =>
    rw [hreaches]
    exact iff_of_true (isFinite_of_ofFloat? hx) Bool.false_ne_true

end IsRounded

/-- A zero is what a number is rounded to that is lost. -/
theorem isRounded_of_lost {p : Precision} {s : Sign} {b : Binary} {x : Float}
    (hs : isNegative s = b.negative) (hlost : (b.shorten p.bits p.least).magnitude = 0)
    (hx : parts x = .zero s) : IsRounded p b x := by
  refine .finite (c := ⟨isNegative s, 0, -1074⟩) ?_ ?_ hs ?_
  · rw [Bool.eq_false_iff, ne_eq, Binary.reaches_iff, hlost]
    exact not_le.mpr (by positivity)
  · rw [ofFloat?_eq, hx]
    rfl
  · rw [hlost]
    exact Binary.magnitude_eq_zero_iff.mpr rfl

/-- What rounding of mantissas leaves is the shortened number. -/
theorem magnitude_shorten_eq {b : Binary} {k : Nat}
    (hk : Binary.formatExponent 53 (-1074) b = b.exponent + k) :
    (b.shorten 53 (-1074)).magnitude = roundHalfEven b.mantissa (2 ^ k) * 2 ^ (b.exponent + k) := by
  cases k with
  | zero =>
    rw [Binary.shorten_of_le (by omega), Nat.pow_zero, roundHalfEven_one,
      Int.natCast_zero, add_zero]
    rfl
  | succ k =>
    rw [Binary.shorten_of_lt (by push_cast at hk; exact hk), hk]
    rfl

/-- **Rounded parts that are put together** make the double that the number is rounded to. -/
theorem isRounded_of_parts {s : Sign} {b : Binary} {x : Float} (hs : isNegative s = b.negative)
    (hb : b.mantissa ≠ 0) (hroom : b.exponent ≤ Binary.formatExponent 53 (-1074) b)
    (hx : parts x = unpack Format.binary64 (UnpackedFloat.pack Format.binary64
      (roundWithAccuracy Format.binary64 s b.mantissa b.exponent .exact))) :
      IsRounded .double b x := by
  obtain ⟨k, hk⟩ : ∃ k : Nat, Binary.formatExponent 53 (-1074) b = b.exponent + k :=
    ⟨(Binary.formatExponent 53 (-1074) b - b.exponent).toNat, by omega⟩
  have hshort := magnitude_shorten_eq hk
  rcases roundWithAccuracy_cases hk s .exact hb with
    ⟨hzero, hround⟩ | ⟨m, e, hm, hround, hcanonical, hvalue⟩
  · rw [roundedMantissa_shiftRight] at hzero
    rw [hzero, Nat.cast_zero, zero_mul] at hshort
    rw [hround, unpack_pack_zero] at hx
    exact isRounded_of_lost hs hshort hx
  · rw [roundedMantissa_shiftRight, ← hshort] at hvalue
    rw [hround, unpack_pack_finite hcanonical] at hx
    by_cases hrange : e ≤ 971
    · rw [if_pos hrange] at hx
      refine .finite (c := ⟨isNegative s, m, e⟩) ?_ ?_ hs hvalue
      · rw [Bool.eq_false_iff, ne_eq, Binary.reaches_iff, not_le]
        show (b.shorten 53 (-1074)).magnitude < 2 ^ (1024 : Int)
        calc (b.shorten 53 (-1074)).magnitude = m * 2 ^ e := hvalue.symm
          _ < (2 ^ 53 : Nat) * 2 ^ e := (Binary.mul_zpow_lt_iff _ _ _).mpr hcanonical.size
          _ = 2 ^ (53 + e) := (Binary.two_pow_eq_mul rfl).symm
          _ ≤ 2 ^ (1024 : Int) := zpow_le_zpow_right₀ (by norm_num) (by omega)
      · rw [ofFloat?_eq, hx]
        rfl
    · rw [if_neg hrange] at hx
      refine .infinity ?_ ?_
      · rw [Binary.reaches_iff]
        have hfull : 2 ^ 52 ≤ m := hcanonical.full.resolve_left (by omega)
        calc (2 : ℚ) ^ (1024 : Int) ≤ 2 ^ (52 + e) := zpow_le_zpow_right₀ (by norm_num) (by omega)
          _ = (2 ^ 52 : Nat) * 2 ^ e := Binary.two_pow_eq_mul rfl
          _ ≤ m * 2 ^ e := (Binary.mul_zpow_le_iff _ _ _).mpr hfull
          _ = (b.shorten 53 (-1074)).magnitude := hvalue
      · rw [hx, ← hs]
        cases s <;> rfl

end Double

/-! ## (4) Products -/

/-- The exact product of two numbers. -/
def Binary.times (a b : Binary) : Binary :=
  ⟨a.negative ^^ b.negative, a.mantissa * b.mantissa, a.exponent + b.exponent⟩

@[simp] theorem Binary.magnitude_times (a b : Binary) :
    (a.times b).magnitude = a.magnitude * b.magnitude := by
  unfold magnitude times
  dsimp only
  rw [zpow_add₀ (by norm_num), Nat.cast_mul]
  ring

namespace Double

/-- **The product of doubles** is what the exact product is rounded to. -/
theorem isRounded_mul {x y : Float} {a b : Binary} (ha : Binary.ofFloat? x = some a)
    (hb : Binary.ofFloat? y = some b) : IsRounded .double (a.times b) (x * y) := by
  obtain ⟨⟨-, -, hfulla⟩, -⟩ := isCanonical_of_ofFloat? ha
  obtain ⟨⟨-, -, hfullb⟩, -⟩ := isCanonical_of_ofFloat? hb
  have hproduct := parts_mul x y
  have hsign (s t : Sign) : isNegative (s * t) = (isNegative s ^^ isNegative t) := by
    cases s <;> cases t <;> rfl
  rw [ofFloat?_eq] at ha hb
  rcases hx : parts x with s | _ | s | ⟨s, m, e, hm⟩ <;> rw [hx] at ha hproduct <;> cases ha
  · rcases hy : parts y with t | _ | t | ⟨t, n, f, hn⟩ <;> rw [hy] at hb hproduct <;> cases hb
    · exact isRounded_of_lost (hsign s t) (Binary.magnitude_shorten_of_zero (Nat.zero_mul _))
        (hproduct.trans (unpack_pack_zero _))
    · exact isRounded_of_lost (hsign s t) (Binary.magnitude_shorten_of_zero (Nat.zero_mul _))
        (hproduct.trans (unpack_pack_zero _))
  · rcases hy : parts y with t | _ | t | ⟨t, n, f, hn⟩ <;> rw [hy] at hb hproduct <;> cases hb
    · exact isRounded_of_lost (hsign s t) (Binary.magnitude_shorten_of_zero (Nat.mul_zero _))
        (hproduct.trans (unpack_pack_zero _))
    · refine isRounded_of_parts (hsign s t)
        (Nat.mul_ne_zero (Nat.ne_of_gt hm) (Nat.ne_of_gt hn)) ?_ hproduct
      -- the product has enough bits, unless both factors are multiples of the least number
      show e + f ≤ max (e + f + ((m * n).log2 + 1) - 53) (-1074)
      have hlong : 2 ^ 52 ≤ m ∨ 2 ^ 52 ≤ n → 52 ≤ (m * n).log2 := by
        intro h
        rw [Nat.le_log2 (Nat.mul_ne_zero (Nat.ne_of_gt hm) (Nat.ne_of_gt hn))]
        exact h.elim (fun h => Nat.le_trans h (Nat.le_mul_of_pos_right m hn))
          (fun h => Nat.le_trans h (Nat.le_mul_of_pos_left n hm))
      rcases hfulla with he | hm
      · rcases hfullb with hf | hn
        · have he : e = -1074 := he
          have hf : f = -1074 := hf
          omega
        · have hlog := hlong (.inr hn)
          omega
      · have hlog := hlong (.inl hm)
        omega

section Products

variable {x y : Float} {a b : Binary}

/-- A product with a factor that is not below one is a zero exactly if the other factor is one. -/
theorem isZero_mul_iff (ha : Binary.ofFloat? x = some a) (hone : 1 ≤ a.magnitude)
    (hb : Binary.ofFloat? y = some b) : IsZero (x * y) ↔ IsZero y := by
  rw [(isRounded_mul ha hb).eq_zero_iff, Binary.magnitude_times, isZero_iff_magnitude hb]
  constructor
  · refine fun htiny => by_contra fun hne => absurd htiny (not_le.mpr ?_)
    calc (2 : ℚ) ^ (Precision.double.least - 1) < 2 ^ (-1074 : Int) :=
          zpow_lt_zpow_right₀ (by norm_num) (by decide)
      _ ≤ b.magnitude := le_magnitude_of_ne_zero hb hne
      _ ≤ a.magnitude * b.magnitude := le_mul_of_one_le_left b.magnitude_nonneg hone
  · intro hzero
    rw [hzero, mul_zero]
    positivity

/-- Half a unit below the range of doubles. From here on numbers are rounded to an infinity. -/
def bound : ℚ := 2 ^ (1024 : Int) - 2 ^ (970 : Int)

/-- A product of doubles is finite exactly if the exact one is below the bound. -/
theorem isFinite_mul_iff (ha : Binary.ofFloat? x = some a) (hb : Binary.ofFloat? y = some b) :
    (x * y).isFinite = true ↔ a.magnitude * b.magnitude < bound := by
  rw [(isRounded_mul ha hb).isFinite_iff, Binary.magnitude_times]
  rfl

/-- **Four times a rounded number** is finite exactly if four times the number itself is below the
bound: the numbers that are rounded up to a power of two are the ones that are at most half a unit
below it, also at the power of two that four times is out of range. -/
theorem four_mul_lt_bound_iff (hx : IsRounded .double a x) (hb : Binary.ofFloat? x = some b) :
    4 * b.magnitude < bound ↔ 4 * a.magnitude < bound := by
  have hquarter (c : Binary) : 4 * c.magnitude < bound ↔
      (c.shorten 53 (-1074)).reaches 1022 = false := by
    rw [← Bool.not_eq_true, Binary.reaches_shorten_iff (by decide) (by decide), ← not_le,
      not_iff_not, bound, show (1024 : Int) = 2 + 1022 by
        rfl, show (970 : Int) = 2 + 968 by rfl, zpow_add₀ (by norm_num),
      zpow_add₀ (by norm_num), ← mul_sub]
    exact mul_le_mul_iff_right₀ (by norm_num : (0 : ℚ) < 4)
  rw [hquarter, hquarter]
  cases hx with
  | infinity hreaches hparts =>
    rw [ofFloat?_eq, hparts] at hb
    cases hb
  | finite hreaches hsome hsign hvalue =>
    obtain rfl := Option.some.inj (hb.symm.trans hsome)
    obtain ⟨⟨hsize, hleast, -⟩, -⟩ := isCanonical_of_ofFloat? hb
    have hfits : (b.shorten 53 (-1074)).magnitude = b.magnitude :=
      Binary.magnitude_shorten_of_fits hsize hleast rfl
    rw [← Bool.not_eq_true, ← Bool.not_eq_true, Binary.reaches_iff, Binary.reaches_iff,
      hfits, hvalue]
    rfl

end Products

/-- The nearest single is what a double's number is rounded to in single precision. -/
theorem isRounded_nearest {x : Float} {b : Binary} (hb : Binary.ofFloat? x = some b) :
    IsRounded .single b (Precision.single.nearest x) := by
  have hnearest : Precision.single.nearest x =
      if (b.shorten 24 (-149)).reaches 128 then Binary.ofFields b.negative (2047 * twoTo 52)
      else (b.shorten 24 (-149)).toFloat := by
    simp only [Precision.nearest, hb]
  obtain ⟨hm, he⟩ := Binary.bounds_shorten b
  cases hreaches : (b.shorten 24 (-149)).reaches 128 with
  | true =>
    rw [hreaches, if_pos rfl] at hnearest
    refine .infinity hreaches ?_
    rw [hnearest]
    cases b.negative <;> rfl
  | false =>
    rw [hreaches, if_neg Bool.false_ne_true] at hnearest
    have hdouble : (b.shorten 24 (-149)).reaches 1024 = false := by
      have hbelow := (not_congr (Binary.reaches_iff 128)).mp (Bool.eq_false_iff.mp hreaches)
      rw [Bool.eq_false_iff, ne_eq, Binary.reaches_iff]
      exact fun h => hbelow ((zpow_le_zpow_right₀ (by norm_num) (by norm_num)).trans h)
    obtain ⟨b', hb', hsign, hvalue⟩ := Binary.exists_ofFloat?_toFloat (by omega) (by omega) hdouble
    refine .finite hreaches (c := b') ?_ ?_ hvalue
    · rw [hnearest, hb']
    · rw [hsign, shorten_negative]

/-- **The square of a number that the precision represents**, as it is computed, is what some number
is rounded to that has the value of the exact square. In double precision this is the exact square.
In single precision it is the double square, which is exact. -/
theorem isRounded_square (p : Precision) {x : Float} {b : Binary} (hx : p.Represents x)
    (hb : Binary.ofFloat? x = some b) :
    ∃ c : Binary, c.negative = false ∧ c.magnitude = b.magnitude ^ 2 ∧
      IsRounded p c (Scalar.mul p x x) := by
  have hsign : (b.times b).negative = false := Bool.xor_self _
  have hvalue : (b.times b).magnitude = b.magnitude ^ 2 := by rw [Binary.magnitude_times, sq]
  have hproduct := isRounded_mul hb hb
  cases p with
  | double => exact ⟨b.times b, hsign, hvalue, hproduct⟩
  | single =>
    obtain ⟨hrange, m, e, hm, he, hfits⟩ := hx b hb
    -- a double has room for the square of 24 bits
    have hexact : ((b.times b).shorten 53 (-1074)).magnitude = b.magnitude ^ 2 := by
      rw [← hvalue]
      refine Binary.magnitude_shorten_of_fits (m := m * m) (e := e + e) ?_ (by omega) ?_
      · calc m * m < 2 ^ 24 * 2 ^ 24 := Nat.mul_lt_mul'' hm hm
          _ < 2 ^ 53 := by norm_num
      · rw [Binary.magnitude_times, hfits, zpow_add₀ (by norm_num), Nat.cast_mul]
        ring
    cases hproduct with
    | infinity hreaches hx =>
      exfalso
      rw [Binary.reaches_iff] at hreaches
      have hreaches : (2 : ℚ) ^ (1024 : Int) ≤ ((b.times b).shorten 53 (-1074)).magnitude :=
        hreaches
      rw [hexact] at hreaches
      have hbelow : b.magnitude ^ 2 < 2 ^ (1024 : Int) := calc
        b.magnitude ^ 2 < (2 ^ 128) ^ 2 := pow_lt_pow_left₀ hrange b.magnitude_nonneg two_ne_zero
        _ = 2 ^ (256 : Int) := by rw [← pow_mul]; rfl
        _ ≤ 2 ^ (1024 : Int) := zpow_le_zpow_right₀ (by norm_num) (by norm_num)
      exact absurd hreaches (not_le.mpr hbelow)
    | @finite c hreaches hx hcsign hcvalue =>
      exact ⟨c, hcsign.trans hsign, hcvalue.trans hexact, isRounded_nearest hx⟩

end Double

end NewtonRaphson
