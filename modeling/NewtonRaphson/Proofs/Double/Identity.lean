import NewtonRaphson.Proofs.Double.Order

/-! # Doubles known by their numbers

A double is its parts put together, and its parts are canonical. So there is one double for each
sign and value, and one undefined value.

* **`Double.eq_of_parts`** — doubles with the same parts are the same double.
* **`Double.eq_of_magnitude`** — so are numbers with the same sign and the same value.
* **`Double.eq_iff_le`**, **`Double.same_iff_eq`** — what compares as equal is at most each other,
  and it is the same double if the signs agree.
* **`Precision.nearest_of_represents`** — a number that a precision has is not changed by rounding
  to it. -/

namespace NewtonRaphson

open Float.Model (UnpackedFloat Format)
open Float.Model.UnpackedFloat

namespace Double

variable {x y : Float} {a b : Binary}

/-! ## (1) Parts -/

/-- The bits of a double are its parts put together. -/
theorem pack_parts (x : Float) :
    UnpackedFloat.pack Format.binary64 (parts x) = x.toBits.toBitVec := by
  show UnpackedFloat.pack Format.binary64 (unpack Format.binary64 x.toModel.toBits.toBitVec) = _
  rw [pack_unpack]
  split
  · rename_i hundefined
    -- only one pattern of bits stands for the undefined value
    rw [isNaNBits, decide_eq_true_iff] at hundefined
    exact (x.toModel.valid.eq_packedNaN hundefined.1 hundefined.2).symm
  · rfl

/-- **Doubles with the same parts** are the same double. -/
theorem eq_of_parts (h : parts x = parts y) : x = y := by
  have hbits : x.toModel.toBits.toBitVec = y.toModel.toBits.toBitVec := by
    have hpacked := pack_parts y
    rw [← h, pack_parts x] at hpacked
    exact hpacked
  obtain ⟨⟨⟨bits⟩, hvalid⟩⟩ := x
  obtain ⟨⟨⟨bits'⟩, hvalid'⟩⟩ := y
  obtain rfl : bits = bits' := hbits
  rfl

/-- Parts that stand for a number are known by it: only a zero has the mantissa zero. -/
theorem eq_of_number? {u v : UnpackedFloat} (hu : number? u = some a)
    (hv : number? v = some a) : u = v := by
  have hsign {s t : Sign} (h : isNegative t = isNegative s) :
      t = s := by cases s <;> cases t <;> trivial
  rcases u with _ | _ | s | ⟨s, m, e, hm⟩ <;> cases hu <;> rcases v with
    _ | _ | t | ⟨t, n, f, hn⟩ <;>
    simp only [number?, reduceCtorEq, Option.some.injEq, Binary.mk.injEq, and_true] at hv
  case zero.refl.zero => rw [hsign hv]
  case zero.refl.finite => exact absurd hv.2.1 (Nat.ne_of_gt hn)
  case finite.refl.zero => exact absurd hv.2.1.symm (Nat.ne_of_gt hm)
  case finite.refl.finite =>
    obtain ⟨hst, rfl, rfl⟩ := hv
    rw [hsign hst]

/-! ## (2) Values -/

/-- Canonical parts are known by their value. -/
theorem IsCanonical.eq_of_value {m n : Nat} {e f : Int} (hm : IsCanonical m e)
    (hn : IsCanonical n f) (h : (m : ℚ) * 2 ^ e = n * 2 ^ f) : m = n ∧ e = f := by
  have hle := (hm.le_iff hn).mpr h.le
  have hge := (hn.le_iff hm).mpr h.ge
  omega

/-- **Numbers with the same sign and the same value** are the same double. -/
theorem eq_of_magnitude (ha : Binary.ofFloat? x = some a) (hb : Binary.ofFloat? y = some b)
    (hsign : a.negative = b.negative) (hvalue : a.magnitude = b.magnitude) : x = y := by
  obtain ⟨hcanonical, -⟩ := isCanonical_of_ofFloat? ha
  obtain ⟨hcanonical', -⟩ := isCanonical_of_ofFloat? hb
  obtain ⟨hmantissa, hexponent⟩ := hcanonical.eq_of_value hcanonical' hvalue
  obtain ⟨negative, m, e⟩ := a
  obtain ⟨negative', n, f⟩ := b
  obtain rfl : negative = negative' := hsign
  obtain rfl : m = n := hmantissa
  obtain rfl : e = f := hexponent
  rw [ofFloat?_eq] at ha hb
  exact eq_of_parts (eq_of_number? ha hb)

/-! ## (3) Equality of doubles -/

/-- Doubles compare as equal exactly if each is at most the other. -/
theorem eq_iff_le : Scalar.eq x y = true ↔ Scalar.le x y = true ∧ Scalar.le y x = true := by
  refine ⟨fun h => ?_, fun h => le_antisymm h.1 h.2⟩
  have hequal : (parts x).beq (parts y) = true := h
  rw [UnpackedFloat.beq, beq_iff_eq] at hequal
  rw [scalar_le_eq, scalar_le_eq, UnpackedFloat.le, UnpackedFloat.le,
    compare_swap (parts x), hequal]
  exact ⟨rfl, rfl⟩

theorem eq_swap (h : Scalar.eq x y = true) : Scalar.eq y x = true :=
  eq_iff_le.mpr (eq_iff_le.mp h).symm

theorem eq_trans {z : Float} (hxy : Scalar.eq x y = true) (hyz : Scalar.eq y z = true) :
    Scalar.eq x z = true := by
  obtain ⟨hle, hge⟩ := eq_iff_le.mp hxy
  obtain ⟨hle', hge'⟩ := eq_iff_le.mp hyz
  exact eq_iff_le.mpr ⟨TransitiveScalar.le_trans hle hle', TransitiveScalar.le_trans hge' hge⟩

/-- Numbers compare as equal exactly if their values are equal. -/
theorem eq_iff_value (ha : Binary.ofFloat? x = some a) (hb : Binary.ofFloat? y = some b) :
    Scalar.eq x y = true ↔ a.value = b.value := by
  rw [eq_iff_le, le_iff_value ha hb, le_iff_value hb ha, le_antisymm_iff]

/-- Only the undefined value does not compare as equal to itself. -/
theorem eq_self_iff : Scalar.eq x x = true ↔ x.isNaN = false := by
  have hnan : x.isNaN = (parts x).isNaN := rfl
  rw [eq_iff_le, and_self, scalar_le_eq, hnan]
  by_cases h : parts x = .notANumber
  · rw [h]
    exact iff_of_false nofun nofun
  · refine iff_of_true (le_self h) ?_
    cases hparts : parts x <;> first | rfl | exact absurd hparts h

/-- Whether the sign bit of a double is set. -/
def isSigned (x : Float) : Bool := x.toBits.toNat / 2 ^ 63 == 1

theorem isSigned_of_ofFloat? (hb : Binary.ofFloat? x = some b) : isSigned x = b.negative := by
  unfold Binary.ofFloat? at hb
  dsimp only at hb
  split at hb
  · cases hb
  · split at hb <;> cases hb <;> rfl

/-- Doubles are **the same** if both are undefined, or if they compare as equal and have the same
sign. -/
def Same (x y : Float) : Prop :=
  x.isNaN = true ∧ y.isNaN = true ∨ Scalar.eq x y = true ∧ isSigned x = isSigned y

/-- **The same doubles are equal.** -/
theorem same_iff_eq : Same x y ↔ x = y := by
  have hundefined {z : Float} (h : z.isNaN = true) : parts z = .notANumber := by
    have hparts : (parts z).isNaN = true := h
    cases hz : parts z <;> rw [hz] at hparts <;> first | rfl | cases hparts
  constructor
  · rintro (⟨hx, hy⟩ | ⟨hequal, hsign⟩)
    · exact eq_of_parts ((hundefined hx).trans (hundefined hy).symm)
    · obtain ⟨hle, hge⟩ := eq_iff_le.mp hequal
      obtain ⟨hxdefined, hydefined⟩ := ne_notANumber_of_le (scalar_le_eq x y ▸ hle)
      rcases parts_cases x with hx | ⟨_ | _, hx⟩ | ⟨a, ha⟩
      · exact absurd hx hxdefined
      · exact eq_of_parts (hx.trans (eq_negative_infinity_of_le hx hge).symm)
      · exact eq_of_parts (hx.trans (eq_positive_infinity_of_le hx hle).symm)
      · rcases parts_cases y with hy | ⟨_ | _, hy⟩ | ⟨b, hb⟩
        · exact absurd hy hydefined
        · exact eq_of_parts ((eq_negative_infinity_of_le hy hle).trans hy.symm)
        · exact eq_of_parts ((eq_positive_infinity_of_le hy hge).trans hy.symm)
        · rw [isSigned_of_ofFloat? ha, isSigned_of_ofFloat? hb] at hsign
          have hvalue := (eq_iff_value ha hb).mp hequal
          refine eq_of_magnitude ha hb hsign ?_
          cases hnegative : a.negative with
          | false =>
            rwa [Binary.value_of_nonnegative hnegative,
              Binary.value_of_nonnegative (hsign ▸ hnegative)] at hvalue
          | true =>
            rw [Binary.value_of_negative hnegative,
              Binary.value_of_negative (hsign ▸ hnegative)] at hvalue
            exact neg_injective hvalue
  · rintro rfl
    cases hnan : x.isNaN with
    | true => exact .inl ⟨hnan, hnan⟩
    | false => exact .inr ⟨eq_self_iff.mpr hnan, rfl⟩

end Double

/-! ## (4) Rounding -/

/-- **A number that a precision represents** is not changed by rounding to it. -/
theorem Precision.nearest_of_represents {p : Precision} {x : Float} (h : p.Represents x) :
    p.nearest x = x := by
  cases p with
  | double => rfl
  | single =>
    rcases hx : Binary.ofFloat? x with _ | b
    · simp only [nearest, hx]
    · obtain ⟨hrange, m, e, hm, he, hfits⟩ := h b hx
      have hkept : (b.shorten 24 (-149)).magnitude = b.magnitude :=
        Binary.magnitude_shorten_of_fits hm he hfits
      cases Double.isRounded_nearest hx with
      | infinity hreaches _ =>
        have hreached : (2 : ℚ) ^ (128 : Int) ≤ b.magnitude :=
          hkept ▸ (Binary.reaches_iff 128).mp hreaches
        exact absurd hreached (not_le.mpr hrange)
      | finite _ hnearest hsign hvalue =>
        exact Double.eq_of_magnitude hnearest hx hsign (hvalue.trans hkept)

/-- So rounding twice is rounding once. -/
@[simp] theorem Precision.nearest_nearest (p : Precision) (x : Float) :
    p.nearest (p.nearest x) = p.nearest x :=
  nearest_of_represents (p.represents_nearest x)

end NewtonRaphson
