import Mathlib
import NewtonRaphson.Proofs.OrderedScalar
import NewtonRaphson.Scalar.Binary

/-! # Floating point is ordered

Doubles obey the laws of ordered scalars, in both precisions. A double is taken apart into sign,
mantissa and exponent, and each operation is looked at on the parts.

* **`Double.compare_swap`** — exchanging two doubles reverses their comparison; only undefined
  values are not compared.
* **`Double.NotBelowZero`** — the parts of a zero, or of a positive number or infinity. Squares,
  sums and roots of such values are such values again.
* **`Double.notBelowZero_nearest`** — so is the nearest single. -/

namespace NewtonRaphson

open Float.Model (UnpackedFloat Format)
open Float.Model.UnpackedFloat

namespace Double

/-- A double taken apart. -/
def parts (x : Float) : UnpackedFloat := x.toModel.unpack

/-! ## (1) Comparisons -/

theorem scalar_le_eq (x y : Float) : Scalar.le x y = (parts x).le (parts y) := by
  refine Bool.eq_iff_iff.mpr (decide_eq_true_iff.trans ?_)
  show decide (x.toModel ≤ y.toModel) = true ↔ _
  exact decide_eq_true_iff

theorem scalar_lt_eq (x y : Float) : Scalar.lt x y = (parts x).lt (parts y) := by
  refine Bool.eq_iff_iff.mpr (decide_eq_true_iff.trans ?_)
  show decide (x.toModel < y.toModel) = true ↔ _
  exact decide_eq_true_iff

/-- Exchanging two doubles reverses their comparison. -/
theorem compare_swap (u v : UnpackedFloat) : v.compare u = (u.compare v).map Ordering.swap := by
  have hexponent (e f : Int) : compare f e = (compare e f).swap := Std.OrientedCmp.eq_swap
  have hmantissa (m n : Nat) : compare n m = (compare m n).swap := Std.OrientedCmp.eq_swap
  rcases u with (_ | _) | _ | _ | ⟨_ | _, m, e, _⟩ <;> rcases v with
    (_ | _) | _ | _ | ⟨_ | _, n, f, _⟩
  -- only two numbers of one sign are compared by their parts
  case finite.negative.finite.negative | finite.positive.finite.positive =>
    simp only [UnpackedFloat.compare, Option.map_some, Ordering.swap_then, hexponent e f,
      hmantissa m n]
  all_goals rfl

/-- Two doubles are compared unless one of them is undefined. -/
theorem exists_compare {u v : UnpackedFloat} (hu : u ≠ .notANumber) (hv : v ≠ .notANumber) :
    ∃ o, u.compare v = some o := by
  rcases u with (_ | _) | _ | _ | ⟨_ | _, _, _, _⟩ <;> rcases v with
    (_ | _) | _ | _ | ⟨_ | _, _, _, _⟩
  any_goals exact ⟨_, rfl⟩
  all_goals contradiction

/-- Undefined values are neither at most nor at least anything. -/
theorem ne_notANumber_of_le {u v : UnpackedFloat} (h : u.le v = true) :
    u ≠ .notANumber ∧ v ≠ .notANumber := by
  constructor
  · rintro rfl
    cases h
  · rintro rfl
    rw [UnpackedFloat.le, compare_swap .notANumber u] at h
    cases h

/-- A double that is not undefined is at most itself. -/
theorem le_self {u : UnpackedFloat} (h : u ≠ .notANumber) : u.le u = true := by
  obtain ⟨o, ho⟩ := exists_compare h h
  have hswap := compare_swap u u
  rw [ho] at hswap
  rw [UnpackedFloat.le, ho]
  -- the comparison is its own reverse
  cases o with
  | eq => rfl
  | lt => cases hswap
  | gt => cases hswap

/-- Strictly less is the opposite of less or equal. -/
theorem lt_eq_not_le {u v : UnpackedFloat} (hu : u ≠ .notANumber) (hv : v ≠ .notANumber) :
    u.lt v = !v.le u := by
  obtain ⟨o, ho⟩ := exists_compare hu hv
  rw [UnpackedFloat.lt, UnpackedFloat.le, compare_swap u v, ho]
  cases o <;> rfl

/-! ## (2) Values that are not below zero -/

/-- The parts of a double that is **not below zero**. -/
inductive NotBelowZero : UnpackedFloat → Prop where
  /-- Both zeros. -/
  | zero (s : Sign) : NotBelowZero (.zero s)
  /-- The positive infinity. -/
  | infinity : NotBelowZero (.infinity .positive)
  /-- A positive number. -/
  | finite (m : Nat) (e : Int) (hm : 0 < m) : NotBelowZero (.finite .positive m e hm)

theorem zero_le_iff {u : UnpackedFloat} :
    (UnpackedFloat.zero .positive).le u = true ↔ NotBelowZero u := by
  constructor
  · intro h
    rcases u with (_ | _) | _ | s | ⟨_ | _, m, e, hm⟩
    case infinity.positive => exact .infinity
    case zero => exact .zero s
    case finite.positive => exact .finite m e hm
    all_goals cases h
  · intro h
    cases h <;> rfl

theorem scalar_zero_le_iff {x : Float} :
    Scalar.le Scalar.zero x = true ↔ NotBelowZero (parts x) := by
  rw [scalar_le_eq, ← zero_le_iff]
  rfl

/-- Rounding keeps the sign. -/
theorem notBelowZero_roundWithAccuracy (spec : Format) (m : Nat) (e : Int) (a : Accuracy) :
    NotBelowZero (roundWithAccuracy spec .positive m e a) := by
  unfold roundWithAccuracy
  dsimp only
  split
  · exact .zero _
  · exact .finite _ _ _

/-- A square is not below zero. -/
theorem notBelowZero_mul_self (spec : Format) {u : UnpackedFloat} (h : u.isFinite = true) :
    NotBelowZero (mul spec u u) := by
  cases u with
  | infinity s => cases h
  | notANumber => cases h
  | zero s => exact .zero _
  | finite s m e hm => cases s <;> exact notBelowZero_roundWithAccuracy spec (m * m) (e + e) .exact

theorem notBelowZero_normalize (spec : Format) {m : Int} (hm : 0 ≤ m) (e : Int) :
    NotBelowZero (UnpackedFloat.normalize spec m e .positive) := by
  unfold UnpackedFloat.normalize
  split
  · rename_i h
    exact absurd (Int.compare_eq_lt.mp h) (Int.not_lt.mpr hm)
  · exact .zero _
  · exact notBelowZero_roundWithAccuracy _ _ _ _

/-- A sum of values that are not below zero is not below zero. -/
theorem NotBelowZero.add (spec : Format) {u v : UnpackedFloat} (hu : NotBelowZero u)
    (hv : NotBelowZero v) : NotBelowZero (UnpackedFloat.add spec u v) := by
  cases hu with
  | zero s =>
    cases hv with
    | zero t => cases s <;> cases t <;> exact .zero _
    | infinity => exact .infinity
    | finite n f hn => exact .finite n f hn
  | infinity => cases hv <;> exact .infinity
  | finite m e hm =>
    cases hv with
    | zero t => exact .finite m e hm
    | infinity => exact .infinity
    | finite n f hn =>
      exact notBelowZero_normalize spec
        (Int.add_nonneg (Int.natCast_nonneg _) (Int.natCast_nonneg _)) _

/-- So is a root. -/
theorem NotBelowZero.sqrt (spec : Format) {u : UnpackedFloat} (hu : NotBelowZero u) :
    NotBelowZero (UnpackedFloat.sqrt spec u) := by
  cases hu with
  | zero s => exact .zero s
  | infinity => exact .infinity
  | finite m e hm => exact notBelowZero_roundWithAccuracy spec _ _ _

/-! ## (3) The fields of the bits -/

section Fields

variable {b : BitVec Format.binary64.numBits}

theorem toNat_unpackSign : (unpackSign b).toNat = b.toNat / 2 ^ 63 := by
  have hb : b.toNat < 2 ^ 64 := b.isLt
  rw [unpackSign_def, BitVec.extractLsb'_toNat, Nat.shiftRight_eq_div_pow]
  exact Nat.mod_eq_of_lt (Nat.div_lt_of_lt_mul hb)

theorem toNat_unpackExponent : (unpackExponent b).toNat = b.toNat / 2 ^ 52 % 2 ^ 11 := by
  rw [unpackExponent_def, BitVec.extractLsb'_toNat, Nat.shiftRight_eq_div_pow]

theorem toNat_unpackMantissa : (unpackMantissa b).toNat = b.toNat % 2 ^ 52 := by
  rw [unpackMantissa_def, BitVec.extractLsb'_toNat]
  rfl

/-- Bits without a sign stand for a value that is not below zero, unless they stand for none. -/
theorem notBelowZero_unpack (hsign : unpackSign b = 0#1)
    (hdefined : unpackExponent b = -1#_ → unpackMantissa b = 0#_) :
    NotBelowZero (unpack Format.binary64 b) := by
  have hpositive : Sign.ofBitVec (unpackSign b) = .positive := if_pos hsign
  unfold unpack
  simp only [hpositive]
  split
  · rename_i hexponent
    rw [if_pos (hdefined hexponent)]
    exact .infinity
  · split
    · split
      · exact .zero _
      · exact .finite _ _ _
    · exact .finite _ _ _

/-- Bits up to those of the infinity stand for values that are not below zero. -/
theorem notBelowZero_unpack_of_le (h : b.toNat ≤ 2047 * 2 ^ 52) :
    NotBelowZero (unpack Format.binary64 b) := by
  apply notBelowZero_unpack
  · apply BitVec.eq_of_toNat_eq
    rw [toNat_unpackSign, BitVec.toNat_ofNat]
    omega
  · intro hexponent
    have hlarge : b.toNat / 2 ^ 52 % 2 ^ 11 = 2047 := by
      rw [← toNat_unpackExponent, hexponent]
      rfl
    apply BitVec.eq_of_toNat_eq
    rw [toNat_unpackMantissa]
    show b.toNat % 2 ^ 52 = 0
    omega

/-- The sign bit of a value that is not below zero is set only for the negative zero. -/
theorem NotBelowZero.fields (h : NotBelowZero (unpack Format.binary64 b)) :
    unpackSign b = 0#1 ∨ unpackExponent b = 0#_ ∧ unpackMantissa b = 0#_ := by
  by_cases hsign : unpackSign b = 0#1
  · exact .inl hsign
  have hnegative : Sign.ofBitVec (unpackSign b) = .negative := if_neg hsign
  unfold unpack at h
  simp only [hnegative] at h
  split at h
  · split at h <;> cases h
  · split at h
    · rename_i hexponent
      split at h
      · rename_i hmantissa
        exact .inr ⟨hexponent, hmantissa⟩
      · cases h
    · cases h

theorem notBelowZero_packComponents {e : BitVec 11} {m : BitVec 52} (h : e = -1#_ → m = 0#_) :
    NotBelowZero (unpack Format.binary64 (packComponents Format.binary64 .positive e m)) := by
  apply notBelowZero_unpack
  · exact unpackSign_packComponents _ _ _
  · rw [unpackExponent_packComponents, unpackMantissa_packComponents]
    exact h

/-- Putting the parts of a double together keeps it from coming below zero, also if it overflows. -/
theorem NotBelowZero.pack {u : UnpackedFloat} (h : NotBelowZero u) :
    NotBelowZero (unpack Format.binary64 (UnpackedFloat.pack Format.binary64 u)) := by
  cases h with
  | zero s => cases s <;> exact NotBelowZero.zero _
  | infinity => exact notBelowZero_packComponents fun _ => rfl
  | finite m e hm =>
    unfold UnpackedFloat.pack
    dsimp only
    split
    · exact notBelowZero_packComponents fun _ => rfl
    · rename_i hsmall
      split
      · refine notBelowZero_packComponents fun hexponent => ?_
        -- the exponent of the infinity is too large
        have hlarge := congrArg BitVec.toNat hexponent
        simp only [BitVec.reduceNeg, BitVec.toNat_ofNat, Nat.reducePow, Nat.mod_succ,
          Int.cast_ofNat_Int, Nat.reduceLeDiff, Nat.not_le, Int.toNat_lt',
          Nat.zero_lt_succ] at hlarge hsmall
        omega
      · exact notBelowZero_packComponents fun hexponent => absurd hexponent (by decide)

end Fields

/-! ## (4) The nearest single -/

/-- The exact parts of a double that is not below zero: the mantissa is short, and the sign is set
for no number but zero. -/
structure Unsigned (b : Binary) : Prop where
  mantissa_lt : b.mantissa < 2 ^ 53
  mantissa_eq_zero : b.negative = true → b.mantissa = 0

theorem Unsigned.negative_eq_false {b : Binary} (h : Unsigned b) (hb : b.mantissa ≠ 0) :
    b.negative = false :=
  Bool.eq_false_iff.mpr fun hnegative => hb (h.mantissa_eq_zero hnegative)

theorem twoTo_eq (n : Nat) : twoTo n = 2 ^ n := rfl

theorem unsigned_of_ofFloat? {x : Float} {b : Binary} (h : NotBelowZero (parts x))
    (hb : Binary.ofFloat? x = some b) : Unsigned b := by
  have hbits : x.toModel.toBits.toBitVec.toNat = x.toBits.toNat := rfl
  have hsign : x.toBits.toNat / 2 ^ 63 = 1 →
      x.toBits.toNat / 2 ^ 52 % 2 ^ 11 = 0 ∧ x.toBits.toNat % 2 ^ 52 = 0 := by
    intro hone
    rw [← hbits, ← toNat_unpackSign] at hone
    rw [← hbits, ← toNat_unpackExponent, ← toNat_unpackMantissa]
    rcases h.fields with hsign | ⟨hexponent, hmantissa⟩
    · rw [hsign] at hone
      cases hone
    · rw [hexponent, hmantissa]
      exact ⟨rfl, rfl⟩
  unfold Binary.ofFloat? at hb
  dsimp only at hb
  rw [twoTo_eq, twoTo_eq, twoTo_eq] at hb
  split at hb
  · cases hb
  · split at hb
    · cases hb
      refine ⟨?_, fun hnegative => (hsign (beq_iff_eq.mp hnegative)).2⟩
      show x.toBits.toNat % 2 ^ 52 < 2 ^ 53
      omega
    · rename_i hexponent
      cases hb
      refine ⟨?_, fun hnegative => absurd (hsign (beq_iff_eq.mp hnegative)).1 hexponent⟩
      show 2 ^ 52 + x.toBits.toNat % 2 ^ 52 < 2 ^ 53
      omega

/-- Rounding half to even exceeds the quotient by one at most. -/
theorem roundHalfEven_le (n d : Nat) : roundHalfEven n d ≤ n / d + 1 := by
  unfold roundHalfEven
  dsimp only
  split
  · omega
  · split <;> omega

/-- Shortening leaves a number alone or drops some of its bits. -/
theorem shorten_cases (bits : Nat) (least : Int) (b : Binary) :
    b.shorten bits least = b ∨
      ∃ k e, b.shorten bits least = ⟨b.negative, roundHalfEven b.mantissa (twoTo (k + 1)), e⟩ := by
  unfold Binary.shorten
  dsimp only
  generalize (if b.exponent + (b.mantissa.log2 + 1) - bits < least then least
    else b.exponent + (b.mantissa.log2 + 1) - bits) = e
  split
  · exact .inl rfl
  · rename_i hexponent
    have hdrop : (e - b.exponent).toNat = (e - b.exponent).toNat - 1 + 1 := by omega
    refine .inr ⟨(e - b.exponent).toNat - 1, e, ?_⟩
    rw [← hdrop]

theorem shorten_negative (bits : Nat) (least : Int) (b : Binary) :
    (b.shorten bits least).negative = b.negative := by
  rcases shorten_cases bits least b with h | ⟨k, e, h⟩ <;> rw [h]

theorem Unsigned.shorten {b : Binary} (h : Unsigned b) (bits : Nat) (least : Int) :
    Unsigned (b.shorten bits least) := by
  rcases shorten_cases bits least b with hb | ⟨k, e, hb⟩
  · rw [hb]
    exact h
  · rw [hb]
    refine ⟨?_, fun hnegative => ?_⟩
    · -- at least one bit is dropped
      have htwo : 2 ≤ twoTo (k + 1) := by
        rw [twoTo_eq, Nat.pow_succ]
        have hk := Nat.two_pow_pos k
        omega
      have hhalf : b.mantissa / twoTo (k + 1) ≤ b.mantissa / 2 :=
        Nat.div_le_div_left htwo Nat.two_pos
      have hround := roundHalfEven_le b.mantissa (twoTo (k + 1))
      have hmantissa := h.mantissa_lt
      show roundHalfEven b.mantissa (twoTo (k + 1)) < 2 ^ 53
      omega
    · show roundHalfEven b.mantissa (twoTo (k + 1)) = 0
      have hzero := roundHalfEven_mul_right 0 (twoTo_pos (k + 1))
      rw [Nat.zero_mul] at hzero
      rw [h.mantissa_eq_zero hnegative, hzero]

theorem notBelowZero_ofFields {n : Nat} (h : n ≤ 2047 * 2 ^ 52) :
    NotBelowZero (parts (Binary.ofFields false n)) := by
  refine (notBelowZero_unpack_of_le ?_).pack
  have hbits : (UInt64.ofNat (0 + n)).toNat = (0 + n) % 2 ^ 64 := UInt64.toNat_ofNat'
  show (UInt64.ofNat (0 + n)).toNat ≤ 2047 * 2 ^ 52
  omega

theorem notBelowZero_infinity : NotBelowZero (parts (Binary.ofFields false (2047 * twoTo 52))) :=
  .infinity

/-- The double with given parts is not below zero if the parts are unsigned. -/
theorem Unsigned.toFloat {b : Binary} (h : Unsigned b) : NotBelowZero (parts b.toFloat) := by
  unfold Binary.toFloat
  split
  · cases b.negative <;> exact .zero _
  · rename_i hb
    rw [h.negative_eq_false hb]
    have hupper : b.mantissa < 2 ^ (b.mantissa.log2 + 1) := (Nat.log2_lt hb).mp (Nat.lt_succ_self _)
    have hwidth : b.mantissa.log2 < 53 := (Nat.log2_lt hb).mpr h.mantissa_lt
    have hmantissa := h.mantissa_lt
    dsimp only
    generalize b.mantissa.log2 = width at *
    split
    · exact notBelowZero_infinity
    · split
      · -- the mantissa is shifted to its full width, where its first bit is left out
        have hfull : b.mantissa * 2 ^ (52 - width) < 2 ^ 53 := by
          have hpower : 2 ^ (width + 1) * 2 ^ (52 - width) = 2 ^ 53 := by
            rw [← Nat.pow_add, show width + 1 + (52 - width) = 53 by omega]
          rw [← hpower]
          exact Nat.mul_lt_mul_of_pos_right hupper (Nat.two_pow_pos _)
        have hbiased : (b.exponent + width + 1023).toNat ≤ 2046 := by omega
        apply notBelowZero_ofFields
        rw [twoTo_eq, twoTo_eq]
        generalize b.mantissa * 2 ^ (52 - width) = m at hfull ⊢
        omega
      · -- the mantissa is too short for a first bit to be left out
        have hshort : b.mantissa * 2 ^ (b.exponent + 1074).toNat < 2 ^ 53 := by
          by_cases hshift : (b.exponent + 1074).toNat = 0
          · rwa [hshift, Nat.pow_zero, Nat.mul_one]
          · refine Nat.lt_of_lt_of_le (Nat.mul_lt_mul_of_pos_right hupper (Nat.two_pow_pos _)) ?_
            rw [← Nat.pow_add]
            exact Nat.pow_le_pow_right Nat.two_pos (by omega)
        apply notBelowZero_ofFields
        rw [twoTo_eq]
        omega

/-- **Rounding to a precision** does not bring a double below zero. -/
theorem notBelowZero_nearest (p : Precision) {x : Float} (h : NotBelowZero (parts x)) :
    NotBelowZero (parts (p.nearest x)) := by
  cases p with
  | double => exact h
  | single =>
    simp only [Precision.nearest]
    split
    · exact h
    · rename_i b hb
      have hshort : Unsigned (b.shorten 24 (-149)) := (unsigned_of_ofFloat? h hb).shorten 24 (-149)
      split
      · rename_i hreaches
        rw [Binary.reaches, Bool.and_eq_true, bne_iff_ne] at hreaches
        rw [← shorten_negative 24 (-149) b, hshort.negative_eq_false hreaches.1]
        exact notBelowZero_infinity
      · exact hshort.toFloat

end Double

/-! ## (5) The laws -/

open Double in
instance : OrderedScalar Float where
  zero_le_zero := scalar_zero_le_iff.mpr (.zero .positive)
  isOrdered_of_le x y h := by
    rw [scalar_le_eq] at h
    obtain ⟨hx, hy⟩ := ne_notANumber_of_le h
    rw [Scalar.isOrdered, Scalar.isOrdered, scalar_le_eq, scalar_le_eq]
    exact ⟨le_self hx, le_self hy⟩
  not_le_of_lt x y h := by
    rw [scalar_lt_eq, UnpackedFloat.lt, beq_iff_eq] at h
    rw [scalar_le_eq, UnpackedFloat.le, compare_swap (parts x), h]
    rfl
  lt_of_not_le x y hx hy h := by
    rw [Scalar.isOrdered, scalar_le_eq] at hx hy
    rw [scalar_le_eq] at h
    rw [scalar_lt_eq, lt_eq_not_le (ne_notANumber_of_le hx).1 (ne_notANumber_of_le hy).1, h]
    rfl
  square_nonneg p x h :=
    scalar_zero_le_iff.mpr (notBelowZero_nearest p (notBelowZero_mul_self _ h).pack)
  add_nonneg p x y hx hy :=
    scalar_zero_le_iff.mpr (notBelowZero_nearest p
      ((scalar_zero_le_iff.mp hx).add _ (scalar_zero_le_iff.mp hy)).pack)
  sqrt_nonneg p x hx :=
    scalar_zero_le_iff.mpr (notBelowZero_nearest p ((scalar_zero_le_iff.mp hx).sqrt _).pack)

end NewtonRaphson
