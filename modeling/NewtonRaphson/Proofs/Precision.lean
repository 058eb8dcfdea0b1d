import NewtonRaphson.Proofs.OrderedScalar.Binary

/-! # The numbers of a precision

Every double has the parts of a binary number, and the double made of given parts has them again. So
rounding can be followed on the numbers themselves, as rational values.

* **`Binary.magnitude`** — the value of a binary number without its sign.
* **`Binary.exists_ofFloat?_toFloat`** — the double made of a number in range has its sign and
  value.
* **`Precision.Represents`** — the doubles that a precision has: for single precision the finite
  ones with 24 significant bits and an exponent in range, the infinities and the undefined value.
* **`Precision.represents_nearest`** — rounding to a precision gives a number of it. -/

namespace NewtonRaphson

open Float.Model (Format)
open Float.Model.UnpackedFloat

namespace Binary

/-! ## (1) Reading a double back from its bits -/

/-- The bits of a double that was made of bits are these, up to those of the infinities. -/
theorem toBits_ofFields (negative : Bool) {rest : Nat} (h : rest ≤ 2047 * 2 ^ 52) :
    (ofFields negative rest).toBits.toNat = (if negative then 2 ^ 63 else 0) + rest := by
  set bits : UInt64 := UInt64.ofNat ((if negative then twoTo 63 else 0) + rest) with hbits
  have hnat : bits.toBitVec.toNat = (if negative then 2 ^ 63 else 0) + rest := by
    have hmod : bits.toNat = ((if negative then twoTo 63 else 0) + rest) % 2 ^ 64 :=
      UInt64.toNat_ofNat'
    rw [Double.twoTo_eq] at hmod
    rw [UInt64.toNat_toBitVec, hmod]
    split <;> omega
  -- no bits up to those of an infinity stand for the undefined value
  have hdefined : @isNaNBits Format.binary64 bits.toBitVec = false := by
    rw [isNaNBits, decide_eq_false_iff_not]
    rintro ⟨hexponent, hmantissa⟩
    have hlarge : bits.toBitVec.toNat / 2 ^ 52 % 2 ^ 11 = 2047 := by
      rw [← Double.toNat_unpackExponent, hexponent]
      rfl
    have hfraction : bits.toBitVec.toNat % 2 ^ 52 ≠ 0 := by
      rw [← Double.toNat_unpackMantissa]
      exact fun hzero => hmantissa (BitVec.eq_of_toNat_eq hzero)
    rw [hnat] at hlarge hfraction
    cases negative <;> simp at hlarge hfraction <;> omega
  have hpack : (ofFields negative rest).toBits.toBitVec = bits.toBitVec := by
    show pack Format.binary64 (unpack Format.binary64 bits.toBitVec) = bits.toBitVec
    rw [pack_unpack, hdefined]
    rfl
  rw [← UInt64.toNat_toBitVec, hpack, hnat]

/-- The parts of a double that was made of bits below those of the infinities. -/
theorem ofFloat?_ofFields (negative : Bool) {rest : Nat} (h : rest < 2047 * 2 ^ 52) :
    ofFloat? (ofFields negative rest) =
      some (if rest < 2 ^ 52 then ⟨negative, rest, -1074⟩
        else ⟨negative, 2 ^ 52 + rest % 2 ^ 52, (rest / 2 ^ 52 : Nat) - 1075⟩) := by
  have hbits := toBits_ofFields negative (Nat.le_of_lt h)
  have hfraction : (ofFields negative rest).toBits.toNat % 2 ^ 52 = rest % 2 ^ 52 := by
    rw [hbits]
    split <;> omega
  have hbiased : (ofFields negative rest).toBits.toNat / 2 ^ 52 % 2 ^ 11 = rest / 2 ^ 52 := by
    rw [hbits]
    split <;> omega
  have hsign : ((ofFields negative rest).toBits.toNat / 2 ^ 63 == 1) = negative := by
    rw [hbits]
    cases negative <;> simp <;> omega
  unfold ofFloat?
  simp only [Double.twoTo_eq, hfraction, hbiased, hsign]
  rw [if_neg (by omega)]
  by_cases hsmall : rest < 2 ^ 52
  · rw [if_pos hsmall, if_pos (Nat.div_eq_of_lt hsmall), Nat.mod_eq_of_lt hsmall]
  · rw [if_neg hsmall, if_neg (by omega)]

/-- An infinity has no parts. -/
theorem ofFloat?_infinity (negative : Bool) :
    ofFloat? (ofFields negative (2047 * twoTo 52)) = none := by
  have hbits := toBits_ofFields negative (Nat.le_refl (2047 * 2 ^ 52))
  have hbiased : (ofFields negative (2047 * 2 ^ 52)).toBits.toNat / 2 ^ 52 % 2 ^ 11 = 2047 := by
    rw [hbits]
    cases negative <;> rfl
  unfold ofFloat?
  simp only [Double.twoTo_eq, hbiased, if_true]

/-! ## (2) Values -/

/-- The **value** of a binary number without its sign. -/
def magnitude (b : Binary) : ℚ := b.mantissa * 2 ^ b.exponent

/-- Bits moved from the exponent to the mantissa leave the value alone. -/
theorem magnitude_shift (negative : Bool) (m : Nat) (k : Nat) (e : Int) :
    (⟨negative, m * 2 ^ k, e - k⟩ : Binary).magnitude = m * 2 ^ e := by
  show ((m * 2 ^ k : Nat) : ℚ) * 2 ^ (e - k) = m * 2 ^ e
  rw [zpow_sub₀ (by norm_num), zpow_natCast, Nat.cast_mul, Nat.cast_pow, Nat.cast_ofNat]
  field_simp

/-- A number that does not reach a power of two is below it. -/
theorem magnitude_lt_of_reaches {b : Binary} {top : Int} (h : b.reaches top = false) :
    b.magnitude < 2 ^ top := by
  by_cases hm : b.mantissa = 0
  · rw [magnitude, hm, Nat.cast_zero, zero_mul]
    positivity
  · have htop : b.exponent + b.mantissa.log2 < top := by
      rw [reaches, Bool.and_eq_false_iff, decide_eq_false_iff_not] at h
      rcases h with h | h
      · exact absurd (bne_eq_false_iff_eq.mp h) hm
      · omega
    have hmantissa : (b.mantissa : ℚ) < 2 ^ ((b.mantissa.log2 : Int) + 1) := by
      have hlog : b.mantissa < 2 ^ (b.mantissa.log2 + 1) := Nat.lt_log2_self
      exact_mod_cast hlog
    calc b.magnitude < 2 ^ ((b.mantissa.log2 : Int) + 1) * 2 ^ b.exponent := by
          exact mul_lt_mul_of_pos_right hmantissa (by positivity)
      _ = 2 ^ ((b.mantissa.log2 : Int) + 1 + b.exponent) := (zpow_add₀ (by norm_num) _ _).symm
      _ ≤ 2 ^ top := zpow_le_zpow_right₀ (by norm_num) (by omega)

/-- **The double made of a number in range** has the number's sign and value. -/
theorem exists_ofFloat?_toFloat {b : Binary} (hm : b.mantissa < 2 ^ 53) (he : -1074 ≤ b.exponent)
    (htop : b.reaches 1024 = false) :
    ∃ b', ofFloat? b.toFloat = some b' ∧ b'.negative = b.negative ∧ b'.magnitude = b.magnitude := by
  obtain ⟨negative, m, e⟩ := b
  dsimp only at hm he
  by_cases hzero : m = 0
  · subst hzero
    refine ⟨⟨negative, 0, -1074⟩, ?_, rfl, ?_⟩
    · exact ofFloat?_ofFields negative (by norm_num)
    · simp [magnitude]
  have hlow : 2 ^ m.log2 ≤ m := Nat.log2_self_le hzero
  have hhigh : m < 2 ^ (m.log2 + 1) := Nat.lt_log2_self
  have hwidth : m.log2 < 53 := (Nat.log2_lt hzero).mpr hm
  have hbelow : e + m.log2 < 1024 := by
    rw [reaches, Bool.and_eq_false_iff, decide_eq_false_iff_not] at htop
    rcases htop with h | h
    · exact absurd (bne_eq_false_iff_eq.mp h) hzero
    · exact Int.not_le.mp h
  unfold toFloat
  dsimp only
  rw [if_neg hzero, Double.twoTo_eq, Double.twoTo_eq, Double.twoTo_eq]
  generalize m.log2 = width at *
  rw [if_neg (by omega)]
  by_cases hnormal : e + width ≥ -1022
  · -- a mantissa of full width, whose first bit is left out
    rw [if_pos hnormal]
    have hfull : 2 ^ 52 ≤ m * 2 ^ (52 - width) ∧ m * 2 ^ (52 - width) < 2 ^ 53 := by
      have hone : 2 ^ width * 2 ^ (52 - width) = 2 ^ 52 := by rw [← Nat.pow_add]; congr 1; omega
      have htwo : 2 ^ (width + 1) * 2 ^ (52 - width) = 2 ^ 53 := by
        rw [← Nat.pow_add]; congr 1; omega
      rw [← hone, ← htwo]
      exact ⟨Nat.mul_le_mul_right _ hlow, Nat.mul_lt_mul_of_pos_right hhigh (Nat.two_pow_pos _)⟩
    have hvalue := magnitude_shift negative m (52 - width) e
    generalize m * 2 ^ (52 - width) = full at hfull hvalue ⊢
    have hbiased : 1 ≤ (e + width + 1023).toNat ∧ (e + width + 1023).toNat ≤ 2046 := by omega
    have hexponent : e - (52 - width : Nat) = ((e + width + 1023).toNat : Int) - 1075 := by omega
    rw [hexponent] at hvalue
    generalize (e + width + 1023).toNat = biased at hbiased hvalue ⊢
    refine ⟨⟨negative, full, (biased : Int) - 1075⟩, ?_, rfl, hvalue⟩
    rw [ofFloat?_ofFields negative (by omega), if_neg (by omega)]
    rw [show (biased * 2 ^ 52 + (full - 2 ^ 52)) % 2 ^ 52 = full - 2 ^ 52 by omega,
      show (biased * 2 ^ 52 + (full - 2 ^ 52)) / 2 ^ 52 = biased by omega,
      show 2 ^ 52 + (full - 2 ^ 52) = full by omega]
  · -- a mantissa too short for a first bit to be left out
    rw [if_neg hnormal]
    have hshort : m * 2 ^ (e + 1074).toNat < 2 ^ 52 := by
      calc m * 2 ^ (e + 1074).toNat < 2 ^ (width + 1) * 2 ^ (e + 1074).toNat :=
            Nat.mul_lt_mul_of_pos_right hhigh (Nat.two_pow_pos _)
        _ = 2 ^ (width + 1 + (e + 1074).toNat) := (Nat.pow_add _ _ _).symm
        _ ≤ 2 ^ 52 := Nat.pow_le_pow_right Nat.two_pos (by omega)
    have hvalue := magnitude_shift negative m (e + 1074).toNat e
    rw [show e - ((e + 1074).toNat : Int) = -1074 by omega] at hvalue
    refine ⟨⟨negative, m * 2 ^ (e + 1074).toNat, -1074⟩, ?_, rfl, hvalue⟩
    rw [ofFloat?_ofFields negative (by omega), if_pos hshort]

/-! ## (3) Numbers of single precision -/

/-- The numbers of **single precision**: 24 significant bits, a multiple of the least number above
zero, and below the power of two that is out of range. -/
def IsSingle (b : Binary) : Prop :=
  b.magnitude < 2 ^ 128 ∧ ∃ (m : Nat) (e : Int), m < 2 ^ 24 ∧ -149 ≤ e ∧ b.magnitude = m * 2 ^ e

/-- A shortened number has at most 24 bits, or is the power of two above all these. -/
theorem bounds_shorten (b : Binary) :
    (b.shorten 24 (-149)).mantissa ≤ 2 ^ 24 ∧ -149 ≤ (b.shorten 24 (-149)).exponent := by
  have hhigh : b.mantissa < 2 ^ (b.mantissa.log2 + 1) := Nat.lt_log2_self
  unfold shorten
  dsimp only
  generalize hexponent : (if b.exponent + (b.mantissa.log2 + 1) - (24 : Nat) < -149
    then (-149 : Int) else b.exponent + (b.mantissa.log2 + 1) - (24 : Nat)) = e
  have hleast : -149 ≤ e ∧ b.exponent + (b.mantissa.log2 + 1) - 24 ≤ e := by
    split at hexponent <;> omega
  generalize b.mantissa.log2 = width at hhigh hleast
  split
  · refine ⟨?_, by omega⟩
    calc b.mantissa ≤ 2 ^ (width + 1) := Nat.le_of_lt hhigh
      _ ≤ 2 ^ 24 := Nat.pow_le_pow_right Nat.two_pos (by omega)
  · refine ⟨?_, hleast.1⟩
    -- what is left of the mantissa has 24 bits, and rounding adds at most one
    have hquotient : b.mantissa / 2 ^ (e - b.exponent).toNat < 2 ^ 24 := by
      rw [Nat.div_lt_iff_lt_mul (Nat.two_pow_pos _), ← Nat.pow_add]
      exact Nat.lt_of_lt_of_le hhigh (Nat.pow_le_pow_right Nat.two_pos (by omega))
    have hround := Double.roundHalfEven_le b.mantissa (twoTo (e - b.exponent).toNat)
    rw [Double.twoTo_eq] at hround ⊢
    show roundHalfEven b.mantissa (2 ^ (e - b.exponent).toNat) ≤ 2 ^ 24
    omega

/-- A number with a short mantissa that is in range is one of single precision. -/
theorem isSingle_of_bounds {b : Binary} (hm : b.mantissa ≤ 2 ^ 24) (he : -149 ≤ b.exponent)
    (htop : b.reaches 128 = false) : b.IsSingle := by
  refine ⟨magnitude_lt_of_reaches htop, ?_⟩
  rcases Nat.lt_or_eq_of_le hm with hlt | heq
  · exact ⟨b.mantissa, b.exponent, hlt, he, rfl⟩
  · -- the mantissa was rounded up to the next power of two
    refine ⟨2 ^ 23, b.exponent + 1, by norm_num, by omega, ?_⟩
    rw [magnitude, heq, zpow_add_one₀ (by norm_num)]
    push_cast
    ring

end Binary

namespace Precision

/-- The doubles that a precision **represents**: every one in double precision; in single precision
those whose value is a number of it, and those that have no value. -/
def Represents : Precision → Float → Prop
  | double, _ => True
  | single, x => ∀ b, Binary.ofFloat? x = some b → b.IsSingle

/-- **Rounding to a precision gives a number that the precision represents.** -/
theorem represents_nearest (p : Precision) (x : Float) : p.Represents (p.nearest x) := by
  cases p with
  | double => exact True.intro
  | single =>
    intro b hb
    simp only [nearest] at hb
    split at hb
    · rename_i hnone
      rw [hnone] at hb
      cases hb
    · rename_i b₀ hb₀
      obtain ⟨hm, he⟩ := Binary.bounds_shorten b₀
      split at hb
      · rw [Binary.ofFloat?_infinity] at hb
        cases hb
      · rename_i hin
        rw [Bool.not_eq_true] at hin
        have hsingle := Binary.isSingle_of_bounds hm he hin
        generalize b₀.shorten 24 (-149) = short at *
        have hdouble : short.reaches 1024 = false := by
          rw [Binary.reaches, Bool.and_eq_false_iff] at hin ⊢
          refine hin.imp_right fun h => ?_
          rw [decide_eq_false_iff_not] at h ⊢
          omega
        obtain ⟨b', hb', -, hvalue⟩ :=
          Binary.exists_ofFloat?_toFloat (by omega) (by omega) hdouble
        rw [hb'] at hb
        cases hb
        rw [Binary.IsSingle, hvalue]
        exact hsingle

/-- Both precisions represent zero. -/
theorem represents_zero (p : Precision) : p.Represents Scalar.zero := by
  cases p with
  | double => exact True.intro
  | single =>
    have hparts : Binary.ofFloat? Scalar.zero = some ⟨false, 0, -1074⟩ := by decide +kernel
    intro b hb
    rw [hparts] at hb
    cases hb
    exact ⟨by
      norm_num [Binary.magnitude], 0, 0, by norm_num, by norm_num, by norm_num [Binary.magnitude]⟩

/-- Both precisions represent one. -/
theorem represents_one (p : Precision) : p.Represents Scalar.one := by
  cases p with
  | double => exact True.intro
  | single =>
    have hparts : Binary.ofFloat? Scalar.one = some ⟨false, 2 ^ 52, -52⟩ := by decide +kernel
    have hvalue : (⟨false, 2 ^ 52, -52⟩ : Binary).magnitude = 1 := by norm_num [Binary.magnitude]
    intro b hb
    rw [hparts] at hb
    cases hb
    exact ⟨by rw [hvalue]; norm_num, 1, 0, by norm_num, by norm_num, by rw [hvalue]; norm_num⟩

end Precision

end NewtonRaphson
