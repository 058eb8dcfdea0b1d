import NewtonRaphson.Proofs.DenseMatrix.Representable
import NewtonRaphson.Proofs.Double.LowerBound

/-! # When a norm is zero

The norm is the root of a sum of squares, each rounded. A square that is rounded to zero is lost,
and nothing else is: sums and roots lose no value that a precision has.

* **`Double.SquareVanishes p x`** — the square of `x` is at most half of the least number of the
  precision.
* **`Double.Tracks`** — what the sum of squares tells of the entries summed so far.
* **`DenseMatrix.Representable.norm_eq_zero_iff`** — a norm is zero exactly if the square of every
  entry vanishes. -/

namespace NewtonRaphson

open Float.Model (UnpackedFloat Format)
open Float.Model.UnpackedFloat

namespace Double

variable {p : Precision} {x y : Float}

/-! ## (1) Zeros and what stays away from them -/

/-- A value **away from zero** in a precision: undefined, or at least the least number. -/
inductive AwayFromZero (p : Precision) (x : Float) : Prop where
  /-- The undefined value. -/
  | undefined (hx : parts x = .notANumber)
  /-- A number above zero that the precision does not lose, or the infinity. -/
  | atLeast (hx : AtLeast p.least x)

theorem AtLeast.mono {k l : Int} (h : AtLeast k x) (hl : l ≤ k) : AtLeast l x := by
  cases h with
  | infinity hx => exact .infinity hx
  | finite hx hsign hvalue =>
    exact .finite hx hsign ((zpow_le_zpow_right₀ (by norm_num) hl).trans hvalue)

theorem AwayFromZero.not_isZero (h : AwayFromZero p x) : ¬ IsZero x := by
  rintro ⟨s, hs⟩
  cases h with
  | undefined hx =>
    rw [hs] at hx
    cases hx
  | atLeast hx =>
    rcases hx.exists_parts with hx | ⟨m, e, hm, hx, -⟩ <;> (rw [hs] at hx; cases hx)

theorem AwayFromZero.nearest_of_undefined (p : Precision) (h : parts x = .notANumber) :
    AwayFromZero p (p.nearest x) := by
  have hnone : Binary.ofFloat? x = none := by
    rw [ofFloat?_eq, h]
    rfl
  rw [nearest_of_none p hnone]
  exact .undefined h

/-- Rounding keeps a zero. -/
theorem IsZero.nearest (p : Precision) (h : IsZero x) : IsZero (p.nearest x) := by
  cases p with
  | double => exact h
  | single =>
    obtain ⟨b, hb, hzero⟩ := isZero_iff.mp h
    refine (isRounded_nearest hb).eq_zero_iff.mpr ?_
    rw [hzero]
    positivity

/-! ## (2) Squares -/

/-- **The square of a double vanishes** in a precision: it is a number whose exact square is at most
half of the least number of the precision. -/
def SquareVanishes (p : Precision) (x : Float) : Prop :=
  ∃ b, Binary.ofFloat? x = some b ∧ b.magnitude ^ 2 ≤ 2 ^ (p.least - 1)

/-- What is computed of a double **tracks** a property in a precision: it is a zero if the property
holds, and away from zero if not. -/
def Tracks (p : Precision) (tiny : Prop) (x : Float) : Prop :=
  tiny ∧ IsZero x ∨ ¬ tiny ∧ AwayFromZero p x

theorem Tracks.isZero_iff {tiny : Prop} (h : Tracks p tiny x) : IsZero x ↔ tiny := by
  rcases h with ⟨htiny, hzero⟩ | ⟨htiny, haway⟩
  · exact iff_of_true hzero htiny
  · exact iff_of_false haway.not_isZero htiny

/-- What tracks a property is not above a zero exactly if the property holds. -/
theorem Tracks.le_iff {tiny : Prop} (h : Tracks p tiny x) (hy : IsZero y) :
    Scalar.le x y = true ↔ tiny := by
  obtain ⟨t, ht⟩ := hy
  rw [scalar_le_eq, ht]
  rcases h with ⟨htiny, s, hs⟩ | ⟨htiny, haway⟩
  · rw [hs]
    exact iff_of_true rfl htiny
  · refine iff_of_false ?_ htiny
    cases haway with
    | undefined hx => rw [hx]; exact Bool.false_ne_true
    | atLeast hx =>
      rcases hx.exists_parts with hx | ⟨m, e, hm, hx, -⟩ <;> (rw [hx]; exact Bool.false_ne_true)

/-- What a number is rounded to that does not vanish is at least the least number. -/
theorem IsRounded.atLeast_least {b : Binary} (h : IsRounded p b x) (hsign : b.negative = false)
    (hb : ¬ b.magnitude ≤ 2 ^ (p.least - 1)) : AtLeast p.least x := by
  cases h with
  | infinity hreaches hx =>
    rw [hsign] at hx
    exact .infinity hx
  | finite hreaches hx hsame hvalue =>
    have hkept : (b.shorten p.bits p.least).mantissa ≠ 0 :=
      (not_congr (Binary.shorten_eq_zero_iff p.bits_pos)).mpr hb
    exact .finite hx (hsame.trans hsign) (hvalue ▸ Binary.le_magnitude_shorten_of_ne_zero hkept)

/-- **A computed square** is zero exactly if the square vanishes. -/
theorem tracks_square (hx : p.Represents x) : Tracks p (SquareVanishes p x) (Scalar.mul p x x) := by
  rcases hb : Binary.ofFloat? x with - | b
  · -- the square of an infinity is one, that of the undefined value is undefined
    have hvanishes : ¬ SquareVanishes p x := by
      rintro ⟨b, hsome, -⟩
      rw [hb] at hsome
      cases hsome
    have hsquare := parts_mul x x
    refine .inr ⟨hvanishes, ?_⟩
    rcases parts_of_ofFloat?_none hb with hparts | ⟨s, hparts⟩
    · have hundefined : UnpackedFloat.mul Format.binary64 .notANumber .notANumber = .notANumber :=
        rfl
      rw [hparts, hundefined, unpack_pack_notANumber] at hsquare
      exact .nearest_of_undefined p hsquare
    · have hinfinite : UnpackedFloat.mul Format.binary64 (.infinity s) (.infinity s) =
          .infinity .positive := by
        cases s <;> rfl
      rw [hparts, hinfinite, unpack_pack_infinity] at hsquare
      exact .atLeast (AtLeast.nearest (.infinity hsquare) le_rfl)
  · obtain ⟨c, hsign, hvalue, hrounded⟩ := isRounded_square p hx hb
    have hvanishes : SquareVanishes p x ↔ c.magnitude ≤ 2 ^ (p.least - 1) := by
      unfold SquareVanishes
      rw [hb, hvalue]
      exact ⟨fun ⟨b', hb', h⟩ => Option.some.inj hb' ▸ h, fun h => ⟨b, rfl, h⟩⟩
    by_cases htiny : c.magnitude ≤ 2 ^ (p.least - 1)
    · exact .inl ⟨hvanishes.mpr htiny, hrounded.eq_zero_iff.mpr htiny⟩
    · exact .inr ⟨fun h => htiny (hvanishes.mp h), .atLeast (hrounded.atLeast_least hsign htiny)⟩

/-! ## (3) Sums and roots -/

/-- A sum of zeros is a zero. -/
theorem IsZero.add (hx : IsZero x) (hy : IsZero y) : IsZero (x + y) := by
  obtain ⟨s, hs⟩ := hx
  obtain ⟨t, ht⟩ := hy
  have hsum := parts_add x y
  rw [hs, ht] at hsum
  cases s <;> cases t <;> exact ⟨_, hsum.trans (unpack_pack_zero _)⟩

theorem AtLeast.notBelowZero {k : Int} (h : AtLeast k x) : NotBelowZero (parts x) := by
  rcases h.exists_parts with hx | ⟨m, e, hm, hx, -⟩ <;> rw [hx]
  · exact .infinity
  · exact .finite m e hm

/-- A zero adds nothing. -/
theorem AtLeast.zero_add {k : Int} (hx : IsZero x) (hy : AtLeast k y) : AtLeast k (x + y) := by
  obtain ⟨s, hs⟩ := hx
  have hsum := parts_add x y
  refine hy.of_parts (hsum.trans ?_)
  rcases hy.exists_parts with hparts | ⟨m, e, hm, hparts, hcanonical, hrange, -⟩
  · rw [hs, hparts]
    exact unpack_pack_infinity .positive
  · rw [hs, hparts]
    exact (unpack_pack_finite hcanonical).trans (if_pos hrange)

/-- An undefined term makes a sum undefined. -/
theorem parts_add_of_undefined (h : parts x = .notANumber ∨ parts y = .notANumber) :
    parts (x + y) = .notANumber := by
  have hsum := parts_add x y
  rcases h with h | h
  · have hundefined : UnpackedFloat.add Format.binary64 .notANumber (parts y) = .notANumber := by
      cases parts y <;> rfl
    rwa [h, hundefined] at hsum
  · have hundefined : UnpackedFloat.add Format.binary64 (parts x) .notANumber = .notANumber := by
      rcases parts x with (_ | _) | _ | _ | ⟨_ | _, _, _, _⟩ <;> rfl
    rwa [h, hundefined] at hsum

/-- **One more term**: a computed sum tracks what its terms do, taken together. -/
theorem Tracks.add {tiny tiny' : Prop} (hx : Tracks p tiny x) (hy : Tracks p tiny' y) :
    Tracks p (tiny ∧ tiny') (Scalar.add p x y) := by
  rcases hx with ⟨htiny, hx⟩ | ⟨htiny, hx⟩ <;> rcases hy with ⟨htiny', hy⟩ | ⟨htiny', hy⟩
  · exact .inl ⟨⟨htiny, htiny'⟩, (hx.add hy).nearest p⟩
  · refine .inr ⟨fun h => htiny' h.2, ?_⟩
    cases hy with
    | undefined hy => exact .nearest_of_undefined p (parts_add_of_undefined (.inr hy))
    | atLeast hy => exact .atLeast ((AtLeast.zero_add hx hy).nearest le_rfl)
  · refine .inr ⟨fun h => htiny h.1, ?_⟩
    obtain ⟨s, hs⟩ := hy
    cases hx with
    | undefined hx => exact .nearest_of_undefined p (parts_add_of_undefined (.inl hx))
    | atLeast hx =>
      exact .atLeast ((hx.add p.least_double_le (hs ▸ NotBelowZero.zero s)).nearest le_rfl)
  · refine .inr ⟨fun h => htiny h.1, ?_⟩
    cases hx with
    | undefined hx => exact .nearest_of_undefined p (parts_add_of_undefined (.inl hx))
    | atLeast hx =>
      cases hy with
      | undefined hy => exact .nearest_of_undefined p (parts_add_of_undefined (.inr hy))
      | atLeast hy => exact .atLeast ((hx.add p.least_double_le hy.notBelowZero).nearest le_rfl)

/-- **A sum of squares** tracks whether all of them vanish. -/
theorem Tracks.foldl {tiny : Prop} (hx : Tracks p tiny x) {ys : List Float}
    (hys : ∀ y ∈ ys, p.Represents y) :
    Tracks p (tiny ∧ ∀ y ∈ ys, SquareVanishes p y)
      (ys.foldl (fun s y => Scalar.add p s (Scalar.mul p y y)) x) := by
  induction ys generalizing tiny x with
  | nil => simpa using hx
  | cons y ys ih =>
    obtain ⟨hy, hys⟩ := List.forall_mem_cons.mp hys
    have hrest := ih (hx.add (tracks_square hy)) hys
    rwa [and_assoc, ← List.forall_mem_cons] at hrest

/-- A root tracks what its radicand does. -/
theorem Tracks.sqrt {tiny : Prop} (hx : Tracks p tiny x) : Tracks p tiny (Scalar.sqrt p x) := by
  have hroot := parts_sqrt x
  refine hx.imp (And.imp_right fun hzero => ?_) (And.imp_right fun haway => ?_)
  · obtain ⟨s, hs⟩ := hzero
    rw [hs] at hroot
    have hzero : IsZero x.sqrt := ⟨s, hroot.trans (unpack_pack_zero s)⟩
    exact hzero.nearest p
  · cases haway with
    | undefined hx =>
      rw [hx] at hroot
      exact .nearest_of_undefined p (hroot.trans unpack_pack_notANumber)
    | atLeast hx =>
      -- the root of the least number is far above it
      have hhalf : AtLeast (p.least / 2) x.sqrt :=
        (hx.mono (by omega)).sqrt (by cases p <;> decide)
      exact .atLeast ((hhalf.mono (by cases p <;> decide)).nearest le_rfl)

end Double

/-- Every entry of a grid is in its list. -/
theorem Grid.get_mem_entries {S : Type} {r c : Nat} (a : Grid S r c) (i : Fin r) (j : Fin c) :
    a.get i j ∈ a.entries := by
  refine List.mem_flatten.mpr ⟨a.rows[i].toList, List.mem_map.mpr ⟨a.rows[i], ?_, rfl⟩, ?_⟩
  · exact Vector.mem_toList_iff.mpr (Vector.getElem_mem i.2)
  · exact Vector.mem_toList_iff.mpr (Vector.getElem_mem j.2)

namespace DenseMatrix

/-- All entries of a matrix have **squares that vanish** in its precision. -/
def SquaresVanish (m : DenseMatrix Float) : Prop :=
  ∀ i j, Double.SquareVanishes m.precision (m.grid.get i j)

/-- **A norm tracks** whether the squares of all entries vanish. -/
theorem Representable.tracks_norm {m : DenseMatrix Float} (h : m.Representable) :
    Double.Tracks m.precision m.SquaresVanish m.norm := by
  have hentries : ∀ x ∈ m.entries, m.precision.Represents x := by
    intro x hx
    obtain ⟨i, j, rfl⟩ := Grid.exists_get_of_mem_entries hx
    exact h i j
  have hvanish : m.SquaresVanish ↔ True ∧ ∀ x ∈ m.entries, Double.SquareVanishes m.precision x := by
    rw [true_and]
    refine ⟨fun hall x hx => ?_, fun hall i j => hall _ (m.grid.get_mem_entries i j)⟩
    obtain ⟨i, j, rfl⟩ := Grid.exists_get_of_mem_entries hx
    exact hall i j
  have hzero : Double.Tracks m.precision True Scalar.zero := .inl ⟨True.intro, .positive, rfl⟩
  rw [hvanish]
  exact (hzero.foldl hentries).sqrt

/-- **A norm is zero** exactly if they do. -/
theorem Representable.norm_eq_zero_iff {m : DenseMatrix Float} (h : m.Representable) :
    Scalar.eq m.norm Scalar.zero = true ↔ m.SquaresVanish :=
  Double.eq_zero_iff.trans h.tracks_norm.isZero_iff

/-- A norm is within a tolerance of zero exactly if it is zero. -/
theorem Representable.norm_le_iff {m : DenseMatrix Float} (h : m.Representable) {tolerance : Float}
    (ht : Scalar.eq tolerance Scalar.zero = true) :
    Scalar.le m.norm tolerance = true ↔ m.SquaresVanish :=
  h.tracks_norm.le_iff (Double.eq_zero_iff.mp ht)

end DenseMatrix

end NewtonRaphson
