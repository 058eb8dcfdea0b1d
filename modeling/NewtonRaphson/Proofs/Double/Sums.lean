import NewtonRaphson.Proofs.Double.Identity
import NewtonRaphson.Proofs.Double.Integers
import NewtonRaphson.Proofs.Double.LowerBound

/-! # Sums and differences of doubles

A sum of doubles is what the sum of their values is rounded to: both numbers are written as
multiples of the smaller of their powers of two, and so is the sum. A difference is a sum with the
opposite number.

* **`Double.isRounded_add`**, **`Double.isRounded_sub`** — sums and differences are rounded numbers.
* **`Double.abs_sub_swap`**, **`Double.abs_nearest_congr`** — a difference the other way round has
  the same size, also once it was rounded to a precision.
* **`Double.value_eq_of_isZero_nearest_sub`** — no difference of two numbers of a precision is lost.
* **`Double.nearest_le_nearest`**, **`Double.add_le_add`** — rounding to a precision keeps the
  order, and so do sums of what is not below zero. -/

namespace NewtonRaphson

open Float.Model (UnpackedFloat Format totalExponent)
open Float.Model.UnpackedFloat

namespace Double

variable {x y z w : Float} {a b : Binary} {p : Precision}

/-! ## (1) Rounded numbers -/

/-- A double is what its own number is rounded to. -/
theorem isRounded_self (hb : Binary.ofFloat? x = some b) : IsRounded .double b x := by
  obtain ⟨⟨hsize, hleast, -⟩, -⟩ := isCanonical_of_ofFloat? hb
  have hkept : (b.shorten 53 (-1074)).magnitude = b.magnitude :=
    Binary.magnitude_shorten_of_fits hsize hleast rfl
  refine .finite ?_ hb rfl hkept.symm
  rw [Bool.eq_false_iff, ne_eq, Binary.reaches_iff, not_le]
  calc (b.shorten 53 (-1074)).magnitude = b.magnitude := hkept
    _ < bound := magnitude_lt_bound hb
    _ ≤ 2 ^ (1024 : Int) := sub_le_self _ (by positivity)

/-- What a number is rounded to is known by its sign and value. -/
theorem IsRounded.of_magnitude (h : IsRounded p b x) (hsign : a.negative = b.negative)
    (hvalue : a.magnitude = b.magnitude) : IsRounded p a x := by
  have hshort := Binary.magnitude_shorten_congr p.bits_pos p.least hvalue
  have hreach := Binary.reaches_shorten_congr p.bits_pos p.least p.top hvalue
  cases h with
  | infinity hreaches hx => exact .infinity (hreach.trans hreaches) (hsign ▸ hx)
  | finite hreaches hx hsame hshortened =>
    exact .finite (hreach.trans hreaches) hx (hsame.trans hsign.symm) (hshortened.trans hshort.symm)

/-- Numbers of the same size are rounded to doubles of the same size. -/
theorem IsRounded.abs_eq (hx : IsRounded p a x) (hy : IsRounded p b y)
    (h : a.magnitude = b.magnitude) : x.abs = y.abs := by
  have hshort := Binary.magnitude_shorten_congr p.bits_pos p.least h
  have hreach := Binary.reaches_shorten_congr p.bits_pos p.least p.top h
  cases hx with
  | infinity hreaches hx =>
    cases hy with
    | infinity _ hy =>
      apply eq_of_parts
      rw [parts_abs, parts_abs, hx, hy]
      rfl
    | finite hbelow =>
      rw [hreach, hbelow] at hreaches
      cases hreaches
  | finite hbelow hx _ hvalue =>
    cases hy with
    | infinity hreaches =>
      rw [hreach, hreaches] at hbelow
      cases hbelow
    | finite _ hy _ hvalue' =>
      exact eq_of_magnitude ((ofFloat?_abs x).trans (congrArg _ hx))
        ((ofFloat?_abs y).trans (congrArg _ hy)) rfl (hvalue.trans (hshort.trans hvalue'.symm))

/-- **Rounded parts with room made for them** make the double that the number is rounded to. -/
theorem isRounded_of_round {s : Sign} (hs : isNegative s = b.negative) (hb : b.mantissa ≠ 0)
    (hx : parts x = unpack Format.binary64 (UnpackedFloat.pack Format.binary64
      (UnpackedFloat.round Format.binary64 s b.mantissa b.exponent))) : IsRounded .double b x := by
  obtain ⟨j, hround, hroom⟩ := exists_round_eq s hb b.exponent
  rw [hround] at hx
  have hshifted : IsRounded .double ⟨b.negative, b.mantissa * 2 ^ j, b.exponent - j⟩ x :=
    isRounded_of_parts hs (Nat.mul_ne_zero hb (Nat.ne_of_gt (Nat.two_pow_pos j))) (hroom _) hx
  exact hshifted.of_magnitude rfl (Binary.magnitude_shift _ _ _ _).symm

/-- **A multiple of a power of two**, rounded. -/
theorem isRounded_of_normalize {n e : Int} (hx : parts x = unpack Format.binary64
    (UnpackedFloat.pack Format.binary64 (UnpackedFloat.normalize Format.binary64 n e .positive))) :
    ∃ c : Binary, c.value = n * 2 ^ e ∧ IsRounded .double c x := by
  rcases lt_trichotomy n 0 with hn | rfl | hn
  · have hcompare : compare n 0 = .lt := Int.compare_eq_lt.mpr hn
    rw [UnpackedFloat.normalize, hcompare] at hx
    refine ⟨⟨true, (-n).toNat, e⟩, ?_, isRounded_of_round rfl (by dsimp only; omega) hx⟩
    have hcast : ((-n).toNat : ℚ) = -(n : ℚ) := by
      rw [← Int.cast_natCast, Int.toNat_of_nonneg (by omega), Int.cast_neg]
    rw [Binary.value_of_negative rfl, Binary.magnitude, hcast]
    ring
  · refine ⟨⟨false, 0, -1074⟩, ?_, ?_⟩
    · rw [Binary.value_of_zero (Binary.magnitude_eq_zero_iff.mpr rfl), Int.cast_zero, zero_mul]
    · exact isRounded_of_lost (s := .positive) rfl (Binary.magnitude_shorten_of_zero rfl)
        (hx.trans (unpack_pack_zero .positive))
  · have hcompare : compare n 0 = .gt := Int.compare_eq_gt.mpr hn
    rw [UnpackedFloat.normalize, hcompare] at hx
    refine ⟨⟨false, n.toNat, e⟩, ?_, isRounded_of_round rfl (by dsimp only; omega) hx⟩
    have hcast : (n.toNat : ℚ) = n := by rw [← Int.cast_natCast, Int.toNat_of_nonneg hn.le]
    rw [Binary.value_of_nonnegative rfl, Binary.magnitude, hcast]

/-! ## (2) Sums and differences -/

/-- The value of a number with its bits moved from the exponent to the mantissa. -/
theorem value_eq_apply (s : Sign) (m : Nat) {e f : Int} (h : f ≤ e) :
    (⟨isNegative s, m, e⟩ : Binary).value =
      s.apply ((m <<< (e - f).toNat : Nat) : Int) * 2 ^ f := by
  have hshift := Binary.magnitude_shift (isNegative s) m (e - f).toNat e
  rw [show e - ((e - f).toNat : Int) = f by omega, Binary.magnitude, ← Nat.shiftLeft_eq] at hshift
  cases s with
  | positive => exact hshift.symm
  | negative =>
    rw [Binary.value_of_negative rfl, Sign.apply, Int.cast_neg, Int.cast_natCast, neg_mul]
    exact congrArg _ hshift.symm

/-- What a zero is added to stays as it is. -/
theorem isRounded_of_kept (hb : Binary.ofFloat? y = some b) (hx : parts x = unpack Format.binary64
    (UnpackedFloat.pack Format.binary64 (parts y))) : IsRounded .double b x := by
  rw [eq_of_parts (hx.trans (unpack_pack_parts y))]
  exact isRounded_self hb

/-- **The sum of doubles** is what the sum of their values is rounded to. -/
theorem isRounded_add (ha : Binary.ofFloat? x = some a) (hb : Binary.ofFloat? y = some b) :
    ∃ c : Binary, c.value = a.value + b.value ∧ IsRounded .double c (x + y) := by
  have hzero (s : Sign) : (⟨isNegative s, 0, -1074⟩ : Binary).value = 0 :=
    Binary.value_of_zero (Binary.magnitude_eq_zero_iff.mpr rfl)
  have hsum := parts_add x y
  have ha' := ha
  have hb' := hb
  rw [ofFloat?_eq] at ha' hb'
  rcases hx : parts x with s | _ | s | ⟨s, m, e, hm⟩ <;> rw [hx] at ha' hsum <;> cases ha' <;>
    rcases hy : parts y with t | _ | t | ⟨t, n, f, hn⟩ <;> rw [hy] at hb' hsum <;> cases hb'
  case zero.refl.zero.refl =>
    refine ⟨⟨isNegative (if s == t then s else .positive), 0, -1074⟩, ?_, ?_⟩
    · rw [hzero, hzero, hzero, add_zero]
    · refine isRounded_of_lost rfl (Binary.magnitude_shorten_of_zero rfl) (hsum.trans ?_)
      cases s <;> cases t <;> exact unpack_pack_zero _
  case zero.refl.finite.refl =>
    refine ⟨_, ?_, isRounded_of_kept hb (hy ▸ hsum)⟩
    rw [hzero, zero_add]
  case finite.refl.zero.refl =>
    refine ⟨_, ?_, isRounded_of_kept ha (hx ▸ hsum)⟩
    rw [hzero, add_zero]
  case finite.refl.finite.refl =>
    -- both numbers are multiples of the smaller power of two, and so is their sum
    obtain ⟨c, hc, hrounded⟩ := isRounded_of_normalize hsum
    refine ⟨c, ?_, hrounded⟩
    rw [hc, value_eq_apply s m (min_le_left e f), value_eq_apply t n (min_le_right e f),
      Int.cast_add, add_mul]

/-- The opposite number has the opposite value. -/
theorem exists_ofFloat?_neg (ha : Binary.ofFloat? x = some a) :
    ∃ c, Binary.ofFloat? (-x) = some c ∧ c.value = -a.value := by
  rw [ofFloat?_eq] at ha ⊢
  rw [parts_neg]
  generalize parts x = u at ha ⊢
  rcases u with s | _ | s | ⟨s, m, e, hm⟩ <;> cases ha <;> refine ⟨_, rfl, ?_⟩ <;> cases s <;>
    simp [Binary.value, Binary.magnitude, isNegative]

/-- Subtraction is addition of the opposite number. -/
theorem sub_eq_add_opposite (u v : UnpackedFloat) :
    UnpackedFloat.sub Format.binary64 u v = UnpackedFloat.add Format.binary64 u v.neg := by
  rcases u with s | _ | s | ⟨s, m, e, hm⟩ <;> rcases v with t | _ | t | ⟨t, n, f, hn⟩
  case finite.finite =>
    have hsign (k : Int) : (-t).apply k = -t.apply k := by
      cases t with
      | positive => rfl
      | negative => exact (Int.neg_neg k).symm
    show UnpackedFloat.normalize Format.binary64 (s.apply _ - t.apply _) _ _ =
      UnpackedFloat.normalize Format.binary64 (s.apply _ + (-t).apply _) _ _
    rw [hsign, ← Int.sub_eq_add_neg]
  all_goals rfl

/-- **The difference of doubles** is what the difference of their values is rounded to. -/
theorem isRounded_sub (ha : Binary.ofFloat? x = some a) (hb : Binary.ofFloat? y = some b) :
    ∃ c : Binary, c.value = a.value - b.value ∧ IsRounded .double c (x - y) := by
  obtain ⟨d, hd, hopposite⟩ := exists_ofFloat?_neg hb
  obtain ⟨c, hc, hrounded⟩ := isRounded_add ha hd
  have hparts : parts (x + -y) = parts (x - y) := by
    rw [parts_add, parts_neg, ← sub_eq_add_opposite, ← parts_sub]
  rw [eq_of_parts hparts] at hrounded
  exact ⟨c, by rw [hc, hopposite, sub_eq_add_neg], hrounded⟩

/-- **A difference the other way round** has the same size. -/
theorem abs_sub_swap (ha : Binary.ofFloat? x = some a) (hb : Binary.ofFloat? y = some b) :
    (x - y).abs = (y - x).abs := by
  obtain ⟨c, hc, hrounded⟩ := isRounded_sub ha hb
  obtain ⟨d, hd, hrounded'⟩ := isRounded_sub hb ha
  refine hrounded.abs_eq hrounded' ?_
  rw [← Binary.abs_value, ← Binary.abs_value, hc, hd]
  exact abs_sub_comm _ _

end Double

/-! ## (3) Numbers of a precision -/

/-- **A number of a precision** is a multiple of its least number. -/
theorem Precision.Represents.exists_value_eq {p : Precision} {x : Float} {a : Binary}
    (hx : p.Represents x) (ha : Binary.ofFloat? x = some a) :
    ∃ n : ℤ, a.value = n * 2 ^ p.least := by
  obtain ⟨m, e, he, hm⟩ : ∃ (m : Nat) (e : Int), p.least ≤ e ∧ a.magnitude = m * 2 ^ e := by
    cases p with
    | double => exact ⟨_, _, (Double.isCanonical_of_ofFloat? ha).1.least, rfl⟩
    | single =>
      obtain ⟨-, m, e, -, he, hm⟩ := hx a ha
      exact ⟨m, e, he, hm⟩
  obtain ⟨i, hi⟩ : ∃ i : Nat, e = i + p.least := ⟨(e - p.least).toNat, by omega⟩
  rw [Binary.mul_two_pow_eq_mul hi] at hm
  cases hsign : a.negative with
  | false =>
    refine ⟨(m * 2 ^ i : Nat), ?_⟩
    rw [Binary.value_of_nonnegative hsign, hm, Int.cast_natCast]
  | true =>
    refine ⟨-(m * 2 ^ i : Nat), ?_⟩
    rw [Binary.value_of_negative hsign, hm, Int.cast_neg, Int.cast_natCast, neg_mul]

namespace Double

variable {x y z w : Float} {a b : Binary} {p : Precision}

/-- **Doubles of the same size** are rounded to a precision alike. -/
theorem abs_nearest_congr (p : Precision) (h : x.abs = y.abs) :
    (p.nearest x).abs = (p.nearest y).abs := by
  cases p with
  | double => exact h
  | single =>
    have hsame := ofFloat?_abs y
    rw [← h, ofFloat?_abs] at hsame
    rcases hx : Binary.ofFloat? x with _ | a <;> rcases hy : Binary.ofFloat? y with _ | b <;>
      rw [hx, hy] at hsame
    · rw [nearest_of_none _ hx, nearest_of_none _ hy, h]
    · cases hsame
    · cases hsame
    · rw [Option.map_some, Option.map_some] at hsame
      have hsize := congrArg Binary.magnitude (Option.some.inj hsame)
      exact (isRounded_nearest hx).abs_eq (isRounded_nearest hy) hsize

/-- What is not below a power of two is not rounded below it. -/
theorem IsRounded.le_magnitude (h : IsRounded p a x) (hb : Binary.ofFloat? x = some b) {k : Int}
    (hk : p.least ≤ k) (hvalue : 2 ^ k ≤ a.magnitude) : 2 ^ k ≤ b.magnitude := by
  cases h with
  | infinity _ hx =>
    rw [ofFloat?_eq, hx] at hb
    cases hb
  | finite _ hx _ hshort =>
    obtain rfl := Option.some.inj (hb.symm.trans hx)
    rw [hshort]
    exact Binary.le_magnitude_shorten p.bits_pos hk hvalue

/-- **No difference of two numbers of a precision is lost**: one that is not zero is at least the
least number. -/
theorem value_eq_of_isZero_nearest_sub (hx : p.Represents x) (hy : p.Represents y)
    (ha : Binary.ofFloat? x = some a) (hb : Binary.ofFloat? y = some b)
    (h : IsZero (p.nearest (x - y))) : a.value = b.value := by
  obtain ⟨m, hm⟩ := hx.exists_value_eq ha
  obtain ⟨n, hn⟩ := hy.exists_value_eq hb
  obtain ⟨c, hc, hrounded⟩ := isRounded_sub ha hb
  by_contra hne
  have hpower : (0 : ℚ) < 2 ^ p.least := by positivity
  have hdifferent : 1 ≤ |m - n| := by
    refine Int.one_le_abs (sub_ne_zero.mpr fun hmn => hne ?_)
    rw [hm, hn, hmn]
  have hleast : (2 : ℚ) ^ p.least ≤ c.magnitude := calc
    (2 : ℚ) ^ p.least ≤ |m - n| * 2 ^ p.least :=
      le_mul_of_one_le_left hpower.le (by exact_mod_cast hdifferent)
    _ = |c.value| := by
      rw [hc, hm, hn, ← sub_mul, abs_mul, abs_of_pos hpower, Int.cast_abs, Int.cast_sub]
    _ = c.magnitude := c.abs_value
  have hlost : (2 : ℚ) ^ (p.least - 1) < 2 ^ p.least := zpow_lt_zpow_right₀ (by norm_num) (by omega)
  cases p with
  | double => exact absurd (hrounded.eq_zero_iff.mp h) (not_le.mpr (hlost.trans_le hleast))
  | single =>
    -- the double that the difference is rounded to first is not smaller
    rcases hd : Binary.ofFloat? (x - y) with _ | d
    · rw [nearest_of_none _ hd, isZero_iff, hd] at h
      obtain ⟨_, hnone, -⟩ := h
      cases hnone
    · have hkept := hrounded.le_magnitude hd (by decide) hleast
      exact absurd ((isRounded_nearest hd).eq_zero_iff.mp h) (not_le.mpr (hlost.trans_le hkept))

/-! ## (4) Order -/

/-- **Rounding to a precision** keeps the order. -/
theorem nearest_le_nearest (p : Precision) (h : Scalar.le x y = true) :
    Scalar.le (p.nearest x) (p.nearest y) = true := by
  cases p with
  | double => exact h
  | single =>
    obtain ⟨hx, hy⟩ := ne_notANumber_of_le (scalar_le_eq x y ▸ h)
    -- what is no number stays as it is, and numbers do not become undefined
    have hdefined {v : Float} (hv : parts v ≠ .notANumber) :
        parts (Precision.single.nearest v) ≠ .notANumber := by
      rcases hnumber : Binary.ofFloat? v with _ | c
      · rwa [nearest_of_none _ hnumber]
      · exact (isRounded_nearest hnumber).ne_notANumber
    have hinfinite {v : Float} {s : Sign} (hv : parts v = .infinity s) :
        parts (Precision.single.nearest v) = .infinity s := by
      rwa [nearest_of_none]
      rw [ofFloat?_eq, hv]
      rfl
    rcases parts_cases x with hundefined | ⟨_ | _, hxinfinite⟩ | ⟨a, ha⟩
    · exact absurd hundefined hx
    · exact le_of_negative_infinity (hinfinite hxinfinite) (hdefined hy)
    · exact le_of_positive_infinity (hdefined hx)
        (hinfinite (eq_positive_infinity_of_le hxinfinite h))
    · rcases parts_cases y with hundefined | ⟨_ | _, hyinfinite⟩ | ⟨b, hb⟩
      · exact absurd hundefined hy
      · exact le_of_negative_infinity (hinfinite (eq_negative_infinity_of_le hyinfinite h))
          (hdefined hy)
      · exact le_of_positive_infinity (hdefined hx) (hinfinite hyinfinite)
      · exact (isRounded_nearest ha).le_of_value_le (isRounded_nearest hb)
          ((le_iff_value ha hb).mp h)

/-- A double that is not below zero is the positive infinity or a number. -/
theorem NotBelowZero.cases_number (hx : NotBelowZero (parts x)) :
    parts x = .infinity .positive ∨ ∃ a, Binary.ofFloat? x = some a := by
  rcases parts_cases x with hundefined | ⟨_ | _, hinfinite⟩ | hnumber
  · rw [hundefined] at hx
    cases hx
  · rw [hinfinite] at hx
    cases hx
  · exact .inl hinfinite
  · exact .inr hnumber

/-- What is not below zero and at most a number is a number. -/
theorem NotBelowZero.exists_ofFloat? (hx : NotBelowZero (parts x)) (h : Scalar.le x y = true)
    (hb : Binary.ofFloat? y = some b) : ∃ a, Binary.ofFloat? x = some a := by
  refine hx.cases_number.resolve_left fun hinfinite => ?_
  rw [ofFloat?_eq, eq_positive_infinity_of_le hinfinite h] at hb
  cases hb

/-- Nothing that is not below zero takes away from the positive infinity. -/
theorem parts_add_of_infinity (hx : NotBelowZero (parts x)) (hy : NotBelowZero (parts y))
    (h : parts x = .infinity .positive ∨ parts y = .infinity .positive) :
    parts (x + y) = .infinity .positive := by
  rw [parts_add]
  generalize parts x = u at hx h ⊢
  generalize parts y = v at hy h ⊢
  rcases h with rfl | rfl
  · cases hy <;> exact unpack_pack_infinity .positive
  · cases hx <;> exact unpack_pack_infinity .positive

/-- **Sums of what is not below zero** keep the order. -/
theorem add_le_add (hx : NotBelowZero (parts x)) (hz : NotBelowZero (parts z))
    (hxy : Scalar.le x y = true) (hzw : Scalar.le z w = true) :
    Scalar.le (x + z) (y + w) = true := by
  have hy : NotBelowZero (parts y) :=
    scalar_zero_le_iff.mp (TransitiveScalar.le_trans (scalar_zero_le_iff.mpr hx) hxy)
  have hw : NotBelowZero (parts w) :=
    scalar_zero_le_iff.mp (TransitiveScalar.le_trans (scalar_zero_le_iff.mpr hz) hzw)
  have hsum : parts (x + z) ≠ .notANumber := by
    have hnotbelow : NotBelowZero (parts (x + z)) := (hx.add _ hz).pack
    intro hundefined
    rw [hundefined] at hnotbelow
    cases hnotbelow
  rcases hy.cases_number with hinfinite | ⟨b, hb⟩
  · exact le_of_positive_infinity hsum (parts_add_of_infinity hy hw (.inl hinfinite))
  rcases hw.cases_number with hinfinite | ⟨d, hd⟩
  · exact le_of_positive_infinity hsum (parts_add_of_infinity hy hw (.inr hinfinite))
  -- now all four are numbers, and the exact sums are compared
  obtain ⟨a, ha⟩ := hx.exists_ofFloat? hxy hb
  obtain ⟨c, hc⟩ := hz.exists_ofFloat? hzw hd
  obtain ⟨s, hs, hrounded⟩ := isRounded_add ha hc
  obtain ⟨t, ht, hrounded'⟩ := isRounded_add hb hd
  refine hrounded.le_of_value_le hrounded' ?_
  rw [hs, ht]
  linarith [(le_iff_value ha hb).mp hxy, (le_iff_value hc hd).mp hzw]

end Double

end NewtonRaphson
