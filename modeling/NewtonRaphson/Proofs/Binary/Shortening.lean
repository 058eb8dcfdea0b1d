import NewtonRaphson.Proofs.Precision

/-! # Shortened numbers

What is left of a binary number when it is rounded to a format: a number of significant bits and a
least exponent. All of it is said of values, so that the parts by which a number is written do not
matter.

* **`le_roundHalfEven_iff`** — from where on a quotient is rounded up to a given number.
* **`Binary.le_magnitude_shorten`** — shortening does not bring a number below a power of two in
  range.
* **`Binary.shorten_eq_zero_iff`** — a number is lost exactly if its value is at most half of the
  least one.
* **`Binary.reaches_shorten_iff`** — it is brought up to a power of two from half a unit below it
  on.
* **`Binary.magnitude_shorten_of_fits`** — a number that the format has keeps its value.
* **`Binary.magnitude_shorten_mono`** — a greater number does not become the smaller one. -/

namespace NewtonRaphson

/-! ## (1) Quotients -/

/-- **Where a quotient is rounded up** to a number: halfway below it, if the number is even, and
beyond. -/
theorem le_roundHalfEven_iff {n d q : Nat} (hd : 0 < d) (hq : 0 < q) :
    q ≤ roundHalfEven n d ↔
      if q % 2 = 0 then (2 * q - 1) * d ≤ 2 * n else (2 * q - 1) * d < 2 * n := by
  have hn : d * (n / d) + n % d = n := Nat.div_add_mod n d
  have hr : n % d < d := Nat.mod_lt n hd
  unfold roundHalfEven
  dsimp only
  generalize n / d = quotient at *
  generalize n % d = rest at *
  obtain ⟨p, rfl⟩ : ∃ p, q = p + 1 := ⟨q - 1, by omega⟩
  rw [show 2 * (p + 1) - 1 = 2 * p + 1 by omega]
  rcases Nat.lt_trichotomy p quotient with hlt | rfl | hgt
  · -- the quotient itself is not below the number
    have hbelow : (2 * p + 1) * d < 2 * n := by nlinarith
    have hround : p + 1 ≤ (if 2 * rest < d then quotient else if d < 2 * rest then quotient + 1
        else quotient + quotient % 2) := by split <;> [skip; split] <;> omega
    simp only [hround, hbelow, Nat.le_of_lt hbelow, ite_self]
  · have hproduct : (2 * p + 1) * d = 2 * (d * p) + d := by ring
    rw [hproduct]
    split <;> split <;> (try split) <;> omega
  · -- no remainder reaches that far
    have habove : 2 * n < (2 * p + 1) * d := by nlinarith
    have hround : ¬ p + 1 ≤ (if 2 * rest < d then quotient else if d < 2 * rest then quotient + 1
        else quotient + quotient % 2) := by split <;> [skip; split] <;> omega
    simp only [hround, Nat.not_le.mpr habove, Nat.not_lt.mpr (Nat.le_of_lt habove), ite_self]

/-- A quotient is rounded to zero up to one half. -/
theorem roundHalfEven_eq_zero_iff {n d : Nat} (hd : 0 < d) : roundHalfEven n d = 0 ↔ 2 * n ≤ d := by
  have hone := le_roundHalfEven_iff (n := n) hd Nat.one_pos
  rw [if_neg (by decide)] at hone
  omega

/-- A multiple of the divisor that is not above a number is not above its rounded quotient. -/
theorem le_roundHalfEven_of_mul_le {n d q : Nat} (hd : 0 < d) (h : q * d ≤ n) :
    q ≤ roundHalfEven n d := by
  have hdiv : q ≤ n / d := (Nat.le_div_iff_mul_le hd).mpr h
  unfold roundHalfEven
  dsimp only
  split
  · exact hdiv
  · split <;> omega

/-- One that is not below a number is not below its rounded quotient. -/
theorem roundHalfEven_le_of_le_mul {n d q : Nat} (hd : 0 < d) (h : n ≤ q * d) :
    roundHalfEven n d ≤ q := by
  have hdiv : n / d ≤ q := Nat.div_le_of_le_mul (Nat.mul_comm q d ▸ h)
  rcases Nat.lt_or_eq_of_le hdiv with hlt | heq
  · exact Nat.le_trans (Double.roundHalfEven_le n d) hlt
  · -- the number is the multiple
    have hn : n = q * d := by
      have hback := Nat.div_mul_le_self n d
      rw [heq] at hback
      exact Nat.le_antisymm h hback
    rw [hn, roundHalfEven_mul_right q hd]

/-- A greater number has no smaller quotient. -/
theorem roundHalfEven_mono {m n d : Nat} (hd : 0 < d) (h : m ≤ n) :
    roundHalfEven m d ≤ roundHalfEven n d := by
  rcases Nat.eq_zero_or_pos (roundHalfEven m d) with hzero | hpos
  · rw [hzero]
    exact Nat.zero_le _
  · have hreached := (le_roundHalfEven_iff (n := m) hd hpos).mp le_rfl
    rw [le_roundHalfEven_iff hd hpos]
    by_cases heven : roundHalfEven m d % 2 = 0
    · rw [if_pos heven] at hreached ⊢
      exact hreached.trans (Nat.mul_le_mul_left 2 h)
    · rw [if_neg heven] at hreached ⊢
      exact hreached.trans_le (Nat.mul_le_mul_left 2 h)

/-- Number and divisor may be multiplied by one factor. -/
theorem roundHalfEven_mul_mul (n d : Nat) {c : Nat} (hc : 0 < c) :
    roundHalfEven (n * c) (d * c) = roundHalfEven n d := by
  have hscale (x y : Nat) : 2 * (x * c) < y * c ↔ 2 * x < y := by
    rw [← Nat.mul_assoc, Nat.mul_lt_mul_right hc]
  have hscale' (x y : Nat) : y * c < 2 * (x * c) ↔ y < 2 * x := by
    rw [← Nat.mul_assoc, Nat.mul_lt_mul_right hc]
  simp only [roundHalfEven, Nat.mul_div_mul_right _ _ hc, Nat.mul_mod_mul_right, hscale, hscale']

namespace Binary

variable {b : Binary} {bits : Nat} {least : Int}

/-! ## (2) Values and powers of two -/

theorem magnitude_nonneg (b : Binary) : 0 ≤ b.magnitude := by
  unfold magnitude
  positivity

theorem magnitude_eq_zero_iff : b.magnitude = 0 ↔ b.mantissa = 0 := by
  have hpower : ((2 : ℚ) ^ b.exponent) ≠ 0 := by positivity
  rw [magnitude, mul_eq_zero, Nat.cast_eq_zero, or_iff_left hpower]

/-- The place of its first bit tells which powers of two a number reaches. -/
theorem le_magnitude_iff (hb : b.mantissa ≠ 0) (k : Int) :
    (2 : ℚ) ^ k ≤ b.magnitude ↔ k ≤ b.exponent + b.mantissa.log2 := by
  have hlow : (2 : ℚ) ^ b.mantissa.log2 ≤ b.mantissa := by exact_mod_cast Nat.log2_self_le hb
  have hhigh : (b.mantissa : ℚ) < 2 ^ (b.mantissa.log2 + 1) := by exact_mod_cast Nat.lt_log2_self
  have hpower : (0 : ℚ) < 2 ^ b.exponent := by positivity
  constructor
  · intro hk
    by_contra hlt
    have hbelow : b.magnitude < 2 ^ k := calc
      b.magnitude < 2 ^ (b.mantissa.log2 + 1) * 2 ^ b.exponent :=
        mul_lt_mul_of_pos_right hhigh hpower
      _ = 2 ^ ((b.mantissa.log2 + 1 : Nat) + b.exponent) := by
          rw [zpow_add₀ (by norm_num), zpow_natCast]
      _ ≤ 2 ^ k := zpow_le_zpow_right₀ (by norm_num) (by push_cast; omega)
    exact absurd hk (not_le.mpr hbelow)
  · intro hk
    calc (2 : ℚ) ^ k ≤ 2 ^ (b.mantissa.log2 + b.exponent) :=
          zpow_le_zpow_right₀ (by norm_num) (by omega)
      _ = 2 ^ b.mantissa.log2 * 2 ^ b.exponent := by rw [zpow_add₀ (by norm_num), zpow_natCast]
      _ ≤ b.magnitude := mul_le_mul_of_nonneg_right hlow hpower.le

/-- A number reaches a power of two if its value does. -/
theorem reaches_iff (top : Int) : b.reaches top = true ↔ (2 : ℚ) ^ top ≤ b.magnitude := by
  by_cases hb : b.mantissa = 0
  · have hzero : b.magnitude = 0 := magnitude_eq_zero_iff.mpr hb
    have hpower : ¬ (2 : ℚ) ^ top ≤ 0 := not_le.mpr (by positivity)
    simp [reaches, hb, hzero, hpower]
  · rw [le_magnitude_iff hb, reaches, Bool.and_eq_true, decide_eq_true_iff, bne_iff_ne]
    exact and_iff_right hb

/-- A power of two as a multiple of another one. -/
theorem two_pow_eq_mul {i : Nat} {k e : Int} (h : k = i + e) :
    (2 : ℚ) ^ k = (2 ^ i : Nat) * 2 ^ e := by
  rw [h, zpow_add₀ (by norm_num), zpow_natCast, Nat.cast_pow, Nat.cast_ofNat]

/-- Multiples of one power of two are compared by their mantissas. -/
theorem mul_zpow_le_iff (m n : Nat) (e : Int) : (m : ℚ) * 2 ^ e ≤ n * 2 ^ e ↔ m ≤ n := by
  have hpower : (0 : ℚ) < 2 ^ e := by positivity
  rw [mul_le_mul_iff_left₀ hpower, Nat.cast_le]

/-- So is a multiple of one. -/
theorem mul_two_pow_eq_mul {i : Nat} {k e : Int} (h : k = i + e) (m : Nat) :
    (m : ℚ) * 2 ^ k = (m * 2 ^ i : Nat) * 2 ^ e := by
  rw [two_pow_eq_mul h, Nat.cast_mul, mul_assoc]

theorem mul_zpow_lt_iff (m n : Nat) (e : Int) : (m : ℚ) * 2 ^ e < n * 2 ^ e ↔ m < n := by
  rw [← not_le, mul_zpow_le_iff, Nat.not_le]

/-! ## (3) The parts of a shortened number -/

/-- The exponent that a number gets from a format: its first bit becomes the first one of the
format, but the exponent is not below the least one. -/
def formatExponent (bits : Nat) (least : Int) (b : Binary) : Int :=
  max (b.exponent + (b.mantissa.log2 + 1) - bits) least

/-- A number whose exponent is not below that of the format is left alone. -/
theorem shorten_of_le (h : formatExponent bits least b ≤ b.exponent) :
    b.shorten bits least = b := by
  unfold formatExponent at h
  unfold shorten
  dsimp only
  rw [if_pos]
  split <;> omega

/-- Any other loses the bits between the two. -/
theorem shorten_of_lt {k : Nat} (h : formatExponent bits least b = b.exponent + (k + 1)) :
    b.shorten bits least =
      ⟨b.negative, roundHalfEven b.mantissa (2 ^ (k + 1)), formatExponent bits least b⟩ := by
  have hexponent : (if b.exponent + (b.mantissa.log2 + 1) - bits < least then least
      else b.exponent + (b.mantissa.log2 + 1) - bits) = formatExponent bits least b := by
    unfold formatExponent
    split <;> omega
  have hdrop : (formatExponent bits least b - b.exponent).toNat = k + 1 := by omega
  unfold shorten
  dsimp only
  rw [hexponent, if_neg (by omega), hdrop, Double.twoTo_eq]

/-- One of the two is the case. -/
theorem formatExponent_cases (bits : Nat) (least : Int) (b : Binary) :
    formatExponent bits least b ≤ b.exponent ∨ ∃ k :
    Nat, formatExponent bits least b = b.exponent + (k + 1) := by
  rcases lt_or_ge b.exponent (formatExponent bits least b) with h | h
  · exact .inr ⟨(formatExponent bits least b - b.exponent - 1).toNat, by omega⟩
  · exact .inl h

/-- Zero is left alone. -/
theorem magnitude_shorten_of_zero (hb : b.mantissa = 0) : (b.shorten bits least).magnitude = 0 := by
  rw [magnitude_eq_zero_iff]
  rcases formatExponent_cases bits least b with hle | ⟨k, hk⟩
  · rw [shorten_of_le hle, hb]
  · rw [shorten_of_lt hk]
    show roundHalfEven b.mantissa (2 ^ (k + 1)) = 0
    rw [roundHalfEven_eq_zero_iff (Nat.two_pow_pos _), hb]
    exact Nat.zero_le _

/-! ## (4) Lower and upper bounds -/

/-- **Shortening keeps powers of two**: a number does not come below one that the format has. -/
theorem le_magnitude_shorten (hbits : 0 < bits) {k : Int} (hk : least ≤ k)
    (h : 2 ^ k ≤ b.magnitude) : 2 ^ k ≤ (b.shorten bits least).magnitude := by
  have hb : b.mantissa ≠ 0 := by
    intro hzero
    rw [magnitude_eq_zero_iff.mpr hzero] at h
    exact absurd h (not_le.mpr (by positivity))
  rcases formatExponent_cases bits least b with hle | ⟨j, hj⟩
  · rwa [shorten_of_le hle]
  · rw [shorten_of_lt hj]
    have hfirst := (le_magnitude_iff hb k).mp h
    -- the first bit is not among those that are lost
    have hkept : j + 1 ≤ b.mantissa.log2 := by
      unfold formatExponent at hj
      omega
    have hquotient : 2 ^ (b.mantissa.log2 - (j + 1)) ≤ roundHalfEven b.mantissa (2 ^ (j + 1)) := by
      refine le_roundHalfEven_of_mul_le (Nat.two_pow_pos _) ?_
      rw [← Nat.pow_add, Nat.sub_add_cancel hkept]
      exact Nat.log2_self_le hb
    calc (2 : ℚ) ^ k ≤ 2 ^ ((b.mantissa.log2 - (j + 1) : Nat) + formatExponent bits least b) :=
          zpow_le_zpow_right₀ (by norm_num) (by omega)
      _ = (2 ^ (b.mantissa.log2 - (j + 1)) : Nat) * 2 ^ formatExponent bits least b :=
          two_pow_eq_mul rfl
      _ ≤ _ := (mul_zpow_le_iff _ _ _).mpr hquotient

/-- A number that is not above such a power does not come above it either. -/
theorem magnitude_shorten_le (hbits : 0 < bits) {k : Int} (hk : least ≤ k)
    (h : b.magnitude ≤ 2 ^ k) : (b.shorten bits least).magnitude ≤ 2 ^ k := by
  by_cases hb : b.mantissa = 0
  · rw [magnitude_shorten_of_zero hb]
    positivity
  rcases formatExponent_cases bits least b with hle | ⟨j, hj⟩
  · rwa [shorten_of_le hle]
  · rw [shorten_of_lt hj]
    have hfirst := (le_magnitude_iff hb (b.exponent + b.mantissa.log2)).mpr le_rfl
    have hplace : b.exponent + b.mantissa.log2 ≤ k :=
      (zpow_le_zpow_iff_right₀ (by norm_num)).mp (hfirst.trans h)
    obtain ⟨i, hi⟩ : ∃ i : Nat, k = i + formatExponent bits least b := by
      refine ⟨(k - formatExponent bits least b).toNat, ?_⟩
      unfold formatExponent
      omega
    have hmantissa : b.mantissa ≤ 2 ^ i * 2 ^ (j + 1) := by
      have hvalue : (2 : ℚ) ^ k = (2 ^ i * 2 ^ (j + 1) : Nat) * 2 ^ b.exponent := by
        rw [← Nat.pow_add]
        exact two_pow_eq_mul (by push_cast; omega)
      rw [hvalue, magnitude, mul_zpow_le_iff] at h
      exact h
    rw [two_pow_eq_mul hi]
    exact (mul_zpow_le_iff _ _ _).mpr (roundHalfEven_le_of_le_mul (Nat.two_pow_pos _) hmantissa)

/-- **A number is lost** exactly if its value is at most half of the least one of the format. -/
theorem shorten_eq_zero_iff (hbits : 0 < bits) :
    (b.shorten bits least).mantissa = 0 ↔ b.magnitude ≤ 2 ^ (least - 1) := by
  rcases lt_or_ge b.magnitude (2 ^ least) with hbelow | habove
  · rcases formatExponent_cases bits least b with hle | ⟨k, hk⟩
    · -- a multiple of the least number that is below it is zero
      have hzero : b.mantissa = 0 := by
        by_contra hb
        have hfirst := (not_congr (le_magnitude_iff hb least)).mp (not_le.mpr hbelow)
        unfold formatExponent at hle
        omega
      rw [shorten_of_le hle, magnitude_eq_zero_iff.mpr hzero]
      exact ⟨fun _ => by positivity, fun _ => hzero⟩
    · rw [shorten_of_lt hk]
      show roundHalfEven b.mantissa (2 ^ (k + 1)) = 0 ↔ _
      rw [roundHalfEven_eq_zero_iff (Nat.two_pow_pos _)]
      by_cases hb : b.mantissa = 0
      · rw [magnitude_eq_zero_iff.mpr hb, hb]
        exact ⟨fun _ => by positivity, fun _ => Nat.zero_le _⟩
      · have hleast : least = b.exponent + (k + 1) := by
          have hfirst := (not_congr (le_magnitude_iff hb least)).mp (not_le.mpr hbelow)
          unfold formatExponent at hk
          omega
        have hhalf : (2 : ℚ) ^ (least - 1) = (2 ^ k : Nat) * 2 ^ b.exponent :=
          two_pow_eq_mul (by omega)
        rw [hhalf, magnitude, mul_zpow_le_iff, Nat.pow_succ]
        omega
  · -- the least number is not lost, nor is anything above it
    have hkept := le_magnitude_shorten hbits le_rfl habove
    have hleast : (2 : ℚ) ^ (least - 1) < 2 ^ least := zpow_lt_zpow_right₀ (by norm_num) (by omega)
    constructor
    · intro hzero
      rw [magnitude_eq_zero_iff.mpr hzero] at hkept
      exact absurd hkept (not_le.mpr (by positivity))
    · exact fun h => absurd (lt_of_lt_of_le hleast habove) (not_lt.mpr h)

/-- What is left of any other number is at least the least one. -/
theorem le_magnitude_shorten_of_ne_zero (h : (b.shorten bits least).mantissa ≠ 0) :
    (2 : ℚ) ^ least ≤ (b.shorten bits least).magnitude := by
  have hexponent : least ≤ (b.shorten bits least).exponent := by
    have hformat : least ≤ formatExponent bits least b := Int.le_max_right _ _
    rcases formatExponent_cases bits least b with hle | ⟨k, hk⟩
    · rw [shorten_of_le hle]
      exact hformat.trans hle
    · rwa [shorten_of_lt hk]
  rw [le_magnitude_iff h]
  omega

/-- The number whose first bit stands right below a power of two is brought up to it from half a
unit below it on. -/
theorem le_magnitude_shorten_iff_of_first (hbits : 0 < bits) {top : Int} (htop : least + bits ≤ top)
    (hfirst : b.exponent + b.mantissa.log2 + 1 = top) :
    (2 : ℚ) ^ top ≤ (b.shorten bits least).magnitude ↔
      (2 : ℚ) ^ top - 2 ^ (top - bits - 1) ≤ b.magnitude := by
  have hformat : formatExponent bits least b = top - bits := by
    unfold formatExponent
    omega
  rcases formatExponent_cases bits least b with hle | ⟨k, hk⟩
  · -- a multiple of the unit that is below the power is a whole unit below it
    have hwhole : b.mantissa + 1 ≤ 2 ^ (b.mantissa.log2 + 1) := Nat.lt_log2_self
    have hpower : (2 : ℚ) ^ top = (2 ^ (b.mantissa.log2 + 1) : Nat) * 2 ^ b.exponent :=
      two_pow_eq_mul (by push_cast; omega)
    have hbelow := (mul_zpow_le_iff _ _ b.exponent).mpr hwhole
    rw [← hpower, Nat.cast_add, Nat.cast_one, add_mul, one_mul] at hbelow
    have hstep : (2 : ℚ) ^ (top - bits - 1) < 2 ^ b.exponent :=
      zpow_lt_zpow_right₀ (by norm_num) (by omega)
    have hunit : (0 : ℚ) < 2 ^ b.exponent := by positivity
    have hvalue : b.magnitude = b.mantissa * 2 ^ b.exponent := rfl
    rw [shorten_of_le hle]
    refine iff_of_false (not_le.mpr ?_) (not_le.mpr ?_)
    · linarith
    · linarith
  · rw [shorten_of_lt hk]
    have htopPower : (2 : ℚ) ^ top = (2 ^ bits : Nat) * 2 ^ formatExponent bits least b :=
      two_pow_eq_mul (by omega)
    -- half a unit below the power of two, as a multiple of the last bit of the number
    have hhalfway : (2 : ℚ) ^ top - 2 ^ (top - bits - 1) =
        ((2 * 2 ^ bits - 1) * 2 ^ k : Nat) * 2 ^ b.exponent := by
      have hhalf : (2 : ℚ) ^ (top - bits - 1) = (2 ^ k : Nat) * 2 ^ b.exponent :=
        two_pow_eq_mul (by omega)
      have htwice : (2 : ℚ) ^ top = (2 ^ (bits + 1) : Nat) * 2 ^ (top - bits - 1) :=
        two_pow_eq_mul (by push_cast; omega)
      have hone : 1 ≤ 2 * 2 ^ bits := Nat.mul_pos Nat.two_pos (Nat.two_pow_pos bits)
      rw [htwice, hhalf, Nat.pow_succ']
      push_cast [hone]
      ring
    have heven : 2 ^ bits % 2 = 0 := by
      rw [← Nat.sub_add_cancel hbits, Nat.pow_succ, Nat.mul_mod_left]
    rw [hhalfway, htopPower]
    show ((2 ^ bits : Nat) : ℚ) * 2 ^ formatExponent bits least b ≤
      (roundHalfEven b.mantissa (2 ^ (k + 1)) : Nat) * 2 ^ formatExponent bits least b ↔
        _ ≤ (b.mantissa : ℚ) * 2 ^ b.exponent
    rw [mul_zpow_le_iff, mul_zpow_le_iff,
      le_roundHalfEven_iff (Nat.two_pow_pos _) (Nat.two_pow_pos _), if_pos heven, Nat.pow_succ,
      ← Nat.mul_assoc]
    omega

/-- **A number is brought up to a power of two** of the format exactly if it is at most half a unit
below it. -/
theorem reaches_shorten_iff (hbits : 0 < bits) {top : Int} (htop : least + bits ≤ top) :
    (b.shorten bits least).reaches top = true ↔
      (2 : ℚ) ^ top - 2 ^ (top - bits - 1) ≤ b.magnitude := by
  have hunit : (2 : ℚ) ^ (top - bits - 1) ≤ 2 ^ (top - 1) :=
    zpow_le_zpow_right₀ (by norm_num) (by omega)
  have hdouble : (2 : ℚ) ^ top = 2 ^ (top - 1) + 2 ^ (top - 1) := by
    rw [← mul_two, ← zpow_add_one₀ (by norm_num), Int.sub_add_cancel]
  have hpositive : (0 : ℚ) < 2 ^ (top - bits - 1) := by positivity
  rw [reaches_iff]
  rcases lt_or_ge b.magnitude (2 ^ (top - 1)) with hlow | hlow
  · -- a number below the next smaller power does not come above that one
    have hshort : (b.shorten bits least).magnitude ≤ 2 ^ (top - 1) :=
      magnitude_shorten_le hbits (by omega) hlow.le
    refine iff_of_false (not_le.mpr ?_) (not_le.mpr ?_)
    · linarith
    · linarith
  rcases le_or_gt (2 ^ top) b.magnitude with hhigh | hhigh
  · refine iff_of_true (le_magnitude_shorten hbits (by omega) hhigh) ?_
    linarith
  · have hb : b.mantissa ≠ 0 := by
      intro hzero
      rw [magnitude_eq_zero_iff.mpr hzero] at hlow
      exact absurd hlow (not_le.mpr (by positivity))
    have hreached := (le_magnitude_iff hb (top - 1)).mp hlow
    have hmissed := (not_congr (le_magnitude_iff hb top)).mp (not_le.mpr hhigh)
    exact le_magnitude_shorten_iff_of_first hbits htop (by omega)

/-- **A number that the format has** keeps its value. -/
theorem magnitude_shorten_of_fits {m : Nat} {e : Int} (hm : m < 2 ^ bits) (he : least ≤ e)
    (hvalue : b.magnitude = m * 2 ^ e) : (b.shorten bits least).magnitude = b.magnitude := by
  by_cases hb : b.mantissa = 0
  · rw [magnitude_shorten_of_zero hb, magnitude_eq_zero_iff.mpr hb]
  rcases formatExponent_cases bits least b with hle | ⟨k, hk⟩
  · rw [shorten_of_le hle]
  · -- the unit of the format divides the number
    have hexponent : formatExponent bits least b ≤ e := by
      have hbelow : b.magnitude < 2 ^ (bits + e) := by
        rw [hvalue, two_pow_eq_mul rfl, mul_zpow_lt_iff]
        exact hm
      have hfirst := (not_congr (le_magnitude_iff hb (bits + e))).mp (not_le.mpr hbelow)
      unfold formatExponent
      omega
    obtain ⟨i, hi⟩ : ∃ i : Nat, e = i + formatExponent bits least b :=
      ⟨(e - formatExponent bits least b).toNat, by omega⟩
    have hunits : (m : ℚ) * 2 ^ e = (m * 2 ^ i : Nat) * 2 ^ formatExponent bits least b :=
      mul_two_pow_eq_mul hi m
    have hmantissa : b.mantissa = m * 2 ^ i * 2 ^ (k + 1) := by
      rw [hunits, mul_two_pow_eq_mul (show formatExponent bits least b =
        (k + 1 : Nat) + b.exponent by omega)] at hvalue
      have hpower : ((2 : ℚ) ^ b.exponent) ≠ 0 := by positivity
      exact_mod_cast mul_right_cancel₀ hpower hvalue
    rw [shorten_of_lt hk, hvalue, hunits, hmantissa, roundHalfEven_mul_right _ (Nat.two_pow_pos _)]
    rfl

/-! ## (5) The order of shortened numbers -/

/-- What is left of a number that is written with an exponent not above its own. -/
theorem magnitude_shorten_of_scaled {m k : Nat} {e : Int} (he : e ≤ b.exponent)
    (hk : formatExponent bits least b = e + k) (hvalue : b.magnitude = m * 2 ^ e) :
    (b.shorten bits least).magnitude = roundHalfEven m (2 ^ k) * 2 ^ (e + k) := by
  obtain ⟨i, hi⟩ : ∃ i : Nat, b.exponent = i + e := ⟨(b.exponent - e).toNat, by omega⟩
  have hmagnitude : b.magnitude = (b.mantissa * 2 ^ i : Nat) * 2 ^ e :=
    mul_two_pow_eq_mul hi b.mantissa
  have hm : m = b.mantissa * 2 ^ i := by
    have hpower : ((2 : ℚ) ^ e) ≠ 0 := by positivity
    exact_mod_cast mul_right_cancel₀ hpower (hvalue.symm.trans hmagnitude)
  rcases formatExponent_cases bits least b with hle | ⟨j, hj⟩
  · -- nothing is lost, so the quotient comes out even
    obtain ⟨l, rfl⟩ : ∃ l, i = l + k := ⟨i - k, by omega⟩
    rw [shorten_of_le hle, hm, Nat.pow_add, ← Nat.mul_assoc,
      roundHalfEven_mul_right _ (Nat.two_pow_pos k)]
    exact mul_two_pow_eq_mul (by push_cast at hi; omega) b.mantissa
  · obtain rfl : k = j + 1 + i := by omega
    rw [hm, Nat.pow_add 2 (j + 1) i, roundHalfEven_mul_mul _ _ (Nat.two_pow_pos i),
      shorten_of_lt hj, ← hk]
    rfl

/-- **Shortening keeps the order of values.** -/
theorem magnitude_shorten_mono {a b : Binary} (hbits : 0 < bits) (h : a.magnitude ≤ b.magnitude) :
    (a.shorten bits least).magnitude ≤ (b.shorten bits least).magnitude := by
  by_cases ha : a.mantissa = 0
  · rw [magnitude_shorten_of_zero ha]
    exact magnitude_nonneg _
  have hfirst : (2 : ℚ) ^ (a.exponent + a.mantissa.log2) ≤ a.magnitude :=
    (le_magnitude_iff ha _).mpr le_rfl
  have hb : b.mantissa ≠ 0 := by
    intro hzero
    rw [magnitude_eq_zero_iff.mpr hzero] at h
    exact absurd (hfirst.trans h) (not_le.mpr (by positivity))
  have hplace : a.exponent + a.mantissa.log2 ≤ b.exponent + b.mantissa.log2 :=
    (le_magnitude_iff hb _).mp (hfirst.trans h)
  rcases lt_or_ge (formatExponent bits least a) (formatExponent bits least b) with hlt | hge
  · -- the first bit of the greater number is a power of two between the two
    have hleast : least ≤ b.exponent + b.mantissa.log2 := by
      unfold formatExponent at hlt
      omega
    have hbelow : a.magnitude ≤ 2 ^ (b.exponent + b.mantissa.log2) := by
      refine le_of_not_ge fun hreached => ?_
      have hsame := (le_magnitude_iff ha _).mp hreached
      unfold formatExponent at hlt
      omega
    exact (magnitude_shorten_le hbits hleast hbelow).trans
      (le_magnitude_shorten hbits hleast ((le_magnitude_iff hb _).mpr le_rfl))
  · -- both are rounded to multiples of one power of two
    have hformat : formatExponent bits least b = formatExponent bits least a := by
      unfold formatExponent at hge ⊢
      omega
    obtain ⟨e, hea, heb, hformatExponent⟩ : ∃ e : Int, e ≤ a.exponent ∧ e ≤ b.exponent ∧
        e ≤ formatExponent bits least a :=
      ⟨min (min a.exponent b.exponent) (formatExponent bits least a), by omega⟩
    obtain ⟨k, hk⟩ : ∃ k : Nat, formatExponent bits least a = e + k :=
      ⟨(formatExponent bits least a - e).toNat, by omega⟩
    have hscaled (c : Binary) (hc : e ≤ c.exponent) :
        c.magnitude = (c.mantissa * 2 ^ (c.exponent - e).toNat : Nat) * 2 ^ e :=
      mul_two_pow_eq_mul (by omega) c.mantissa
    rw [magnitude_shorten_of_scaled hea hk (hscaled a hea),
      magnitude_shorten_of_scaled heb (hformat.trans hk) (hscaled b heb), mul_zpow_le_iff]
    rw [hscaled a hea, hscaled b heb, mul_zpow_le_iff] at h
    exact roundHalfEven_mono (Nat.two_pow_pos k) h

section Congruence

variable {a b : Binary} (hbits : 0 < bits) (least : Int)
include hbits

/-- Numbers of the same size are shortened alike. -/
theorem magnitude_shorten_congr (h : a.magnitude = b.magnitude) :
    (a.shorten bits least).magnitude = (b.shorten bits least).magnitude :=
  le_antisymm (magnitude_shorten_mono hbits h.le) (magnitude_shorten_mono hbits h.ge)

/-- So they reach the same powers of two. -/
theorem reaches_shorten_congr (top : Int) (h : a.magnitude = b.magnitude) :
    (a.shorten bits least).reaches top = (b.shorten bits least).reaches top := by
  rw [Bool.eq_iff_iff, reaches_iff, reaches_iff, magnitude_shorten_congr hbits least h]

end Congruence

end Binary

end NewtonRaphson
