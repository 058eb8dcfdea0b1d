import NewtonRaphson.Proofs.ExtendedScalar
import NewtonRaphson.Proofs.LinearSystem
import NewtonRaphson.Proofs.SingularValues

/-! # Rank check and condition number agree

The rank check compares the smallest singular value with a multiple of the largest, the condition
number divides the largest by the smallest. Over exact scalars, with infinities and undefined values
among the entries, both say the same: a matrix is singular to a threshold exactly if its condition
number is at least the reciprocal of it.

* **`Conditioning.number`** — the condition number as one scalar, infinite if there is no bound.
* **`DenseMatrix.singularValues_extended`** — a finite square matrix has the singular values of its
  numbers.
* **`DenseMatrix.isSingular_iff_conditioning`** — the agreement, for every matrix and threshold. -/

namespace NewtonRaphson

variable {S : Type}

/-- The **condition number**, infinite where the ratio is unbounded. -/
def Conditioning.number [Scalar S] : Conditioning S → S
  | unbounded => Scalar.infinity
  | ratio x => x

namespace DenseMatrix

/-! ## (1) The condition number -/

/-- **The conditioning of a matrix**, with its conditions written out. -/
theorem conditioning_eq [SingularValues S] (a : DenseMatrix S) :
    a.conditioning =
      match a.singularValues with
      | .error cause => .error cause
      | .ok none => .ok .unbounded
      | .ok (some v) =>
        if Scalar.eq (smallest v a.rows_pos) Scalar.zero then .ok .unbounded
        else
          .ok (.ratio (Scalar.div a.precision (largest v a.rows_pos) (smallest v a.rows_pos))) := by
  unfold conditioning
  rcases a.singularValues with cause | _ | v
  · rfl
  · rfl
  · dsimp only [bind, Except.bind, pure, Except.pure]

/-- A matrix that is not square has no condition number, and the rank check refuses it for the same
cause. -/
theorem conditioning_of_ne [SingularValues S] {a : DenseMatrix S} (h : a.cols ≠ a.rows) :
    a.conditioning = .error (.notSquare a.shape) ∧ ∀ t,
      a.isSingular t = .error (.notSquare a.shape) := by
  have hvalues : a.singularValues = .error (.notSquare a.shape) := by
    rw [singularValues, square_of_ne h]
    rfl
  refine ⟨?_, fun t => ?_⟩
  · rw [conditioning_eq, hvalues]
  · rw [isSingular_eq, hvalues]

/-! ## (2) Singular values of extended scalars -/

section Extended

variable {K : Type} [SingularValues K] {a : DenseMatrix (Extended K)}

/-- **The singular values of a square matrix**: none if an entry is no number, else those of its
numbers. -/
theorem singularValues_extended (hsquare : a.cols = a.rows) :
    a.singularValues = .ok (if a.isFinite then
      some ((SingularValues.singularValues a.precision
        ((a.grid.castCols hsquare).map Extended.toNumber)).map .number)
      else none) := by
  rw [singularValues, square_of_eq hsquare]
  rfl

variable {v : Vector K a.rows} (hv : a.singularValues = .ok (some (v.map .number)))
include hv

/-- The rank check compares the extreme singular values. -/
theorem isSingular_of_numbers {threshold : Threshold (Extended K)} {t : Extended K}
    (ht : threshold.value a.rows a.precision = .ok t) :
    a.isSingular threshold = .ok (Scalar.eq (largest v a.rows_pos) Scalar.zero ||
      Scalar.le (.number (smallest v a.rows_pos))
        (Scalar.mul .double t (.number (largest v a.rows_pos)))) := by
  rw [isSingular_eq, hv]
  dsimp only
  rw [smallest_map v _ Extended.lt_number, largest_map v _ Extended.lt_number, ht]
  cases h : Scalar.eq (largest v a.rows_pos) Scalar.zero with
  | true => exact if_pos h
  | false => exact if_neg (Bool.eq_false_iff.mp h)

/-- The condition number is their ratio. -/
theorem conditioning_of_numbers :
    a.conditioning = .ok (if Scalar.eq (smallest v a.rows_pos) Scalar.zero then .unbounded
      else .ratio
        (.number (Scalar.div a.precision (largest v a.rows_pos) (smallest v a.rows_pos)))) := by
  rw [conditioning_eq, hv]
  dsimp only
  rw [smallest_map v _ Extended.lt_number, largest_map v _ Extended.lt_number]
  cases h : Scalar.eq (smallest v a.rows_pos) Scalar.zero with
  | true => exact if_pos h
  | false =>
    rw [Extended.div_number _ _ h]
    exact if_neg (Bool.eq_false_iff.mp h)

end Extended

/-! ## (3) The agreement -/

/-- A condition number **agrees** with the rank check of a matrix. -/
structure AgreesWith [SingularValues S] (a : DenseMatrix S) (c : Conditioning S) : Prop where
  /-- It is at least one. -/
  one_le : Scalar.le Scalar.one c.number = true
  /-- It is infinite exactly if the matrix is singular to the threshold zero. -/
  of_zero : a.isSingular (.given Scalar.zero) = .ok (Scalar.eq c.number Scalar.infinity)
  /-- It is at least the reciprocal of a threshold above zero exactly if the matrix is singular to
  that threshold. -/
  of_pos : ∀ threshold t, threshold.value a.rows a.precision = .ok t →
    Scalar.lt Scalar.zero t = true →
    a.isSingular threshold = .ok (Scalar.le (Scalar.div .double Scalar.one t) c.number)

variable {K : Type} [Field K] [LinearOrder K] [IsStrictOrderedRing K]

/-- The standard threshold is above zero if its factor and the distance from one to the next number
are. -/
theorem zero_lt_standardThreshold [Scalar K] [ExactScalar K] {factor : Extended K} {n : ℕ}
    (hn : 0 < n) {p : Precision} (hepsilon : 0 < (Scalar.epsilon p : K))
    (hfactor : Scalar.lt Scalar.zero factor = true) :
    Scalar.lt Scalar.zero (standardThreshold factor n p) = true := by
  have hrows : (0 : K) < n := Nat.cast_pos.mpr hn
  rcases Extended.zero_lt_iff.mp hfactor with ⟨y, hy, rfl⟩ | rfl
  · simpa [standardThreshold] using mul_pos (mul_pos hy hrows) hepsilon
  · have htimes {x : K} (hx : 0 < x) (q : Precision) :
        Scalar.mul q (.infinity false) (.number x) = (.infinity false : Extended K) :=
      Extended.mul_infinity q hx
    rw [standardThreshold, Extended.ofNat_eq, ExactScalar.ofNat_eq, htimes hrows,
      Extended.epsilon_eq, htimes hepsilon]
    rfl

/-- The infinite condition number is at least one, and at least every reciprocal. -/
theorem le_number_unbounded [Scalar K] [ExactScalar K] (x : K) :
    Scalar.le (.number x) (Conditioning.unbounded : Conditioning (Extended K)).number = true := by
  rw [Conditioning.number, Extended.infinity_eq]
  rfl

variable [SingularValues K] [ExactScalar K] {a : DenseMatrix (Extended K)}

/-- Without singular values a matrix is singular to every threshold. -/
theorem agreesWith_of_none (h : a.singularValues = .ok none) : a.AgreesWith .unbounded := by
  have hsingular (t : Threshold (Extended K)) : a.isSingular t = .ok true := by
    rw [isSingular_eq, h]
  refine ⟨le_number_unbounded _, ?_, fun threshold t _ ht => ?_⟩
  · rw [hsingular, Conditioning.number, Extended.infinity_eq]
    rfl
  · obtain ⟨b, -, hb, -⟩ := Extended.exists_reciprocal ht
    rw [hsingular, hb, le_number_unbounded]

section Numbers

variable {v : Vector K a.rows} (hv : a.singularValues = .ok (some (v.map .number)))
include hv

/-- If the smallest singular value is zero, the matrix is singular to every threshold that is not
below zero. -/
theorem agreesWith_of_eq_zero (hlow : smallest v a.rows_pos = 0)
    (hhigh : 0 ≤ largest v a.rows_pos) : a.AgreesWith .unbounded := by
  refine ⟨le_number_unbounded _, ?_, fun threshold t hvalue ht => ?_⟩
  · have hwithin (x : K) :
        Scalar.le (Extended.number 0) (Scalar.mul .double Scalar.zero (.number x)) = true := by
      simp
    rw [isSingular_of_numbers hv rfl, hlow, hwithin, Bool.or_true, Conditioning.number,
      Extended.infinity_eq]
    rfl
  · obtain ⟨b, -, hb, hverdict⟩ := Extended.exists_reciprocal ht
    rw [isSingular_of_numbers hv hvalue, hb, le_number_unbounded]
    -- zero is singular before the threshold is looked at
    rcases hhigh.eq_or_lt with hzero | hpos
    · simp [← hzero]
    · rw [hverdict _ _ _ hpos, hlow]
      simp [hhigh]

/-- If it is not zero, both compare the same two products. -/
theorem agreesWith_of_pos (hlow : 0 < smallest v a.rows_pos)
    (hle : smallest v a.rows_pos ≤ largest v a.rows_pos) :
    a.AgreesWith (.ratio (.number (largest v a.rows_pos / smallest v a.rows_pos))) := by
  have hhigh : 0 < largest v a.rows_pos := hlow.trans_le hle
  have hnonzero : Scalar.eq (largest v a.rows_pos) Scalar.zero = false := by
    simpa using hhigh.ne'
  refine ⟨?_, ?_, fun threshold t hvalue ht => ?_⟩
  · show Scalar.le (Extended.number Scalar.one) (.number _) = true
    simpa using (one_le_div hlow).mpr hle
  · -- the ratio is a number, and the smallest value is not zero
    have hfinite (x : K) : Scalar.eq (Extended.number x) (.infinity false) = false := rfl
    rw [isSingular_of_numbers hv rfl, hnonzero, Conditioning.number, Extended.infinity_eq, hfinite]
    simpa using hlow
  · obtain ⟨b, -, hb, hverdict⟩ := Extended.exists_reciprocal ht
    rw [isSingular_of_numbers hv hvalue, hnonzero, Bool.false_or, hverdict _ _ _ hhigh, hb,
      Conditioning.number, Extended.le_number, ExactScalar.le_eq]
    exact congrArg Except.ok (decide_eq_decide.mpr (le_div_iff₀ hlow).symm)

end Numbers

variable [NonnegativeSingularValues K]

/-- Every square matrix has a condition number that agrees with its rank check. -/
theorem exists_agreesWith (hsquare : a.cols = a.rows) :
    ∃ c, a.conditioning = .ok c ∧ a.AgreesWith c := by
  have hvalues := singularValues_extended hsquare
  by_cases hfinite : a.isFinite = true
  · rw [if_pos hfinite] at hvalues
    obtain ⟨v, hnonneg, hv⟩ : ∃ v : Vector K a.rows,
        (∀ i, 0 ≤ v.get i) ∧ a.singularValues = .ok (some (v.map .number)) := by
      refine ⟨_, fun i => ?_, hvalues⟩
      have hnot := NonnegativeSingularValues.not_lt_zero a.precision
        ((a.grid.castCols hsquare).map Extended.toNumber) i
      simpa using hnot
    have hle : smallest v a.rows_pos ≤ largest v a.rows_pos :=
      (smallest_le v a.rows_pos ⟨0, a.rows_pos⟩).trans (le_largest v a.rows_pos ⟨0, a.rows_pos⟩)
    have hlow : 0 ≤ smallest v a.rows_pos := by
      obtain ⟨i, hi⟩ := smallest_eq_get v a.rows_pos
      exact hi ▸ hnonneg i
    rw [conditioning_of_numbers hv]
    rcases hlow.eq_or_lt with hzero | hpos
    · refine ⟨.unbounded, ?_, agreesWith_of_eq_zero hv hzero.symm (hlow.trans hle)⟩
      rw [← hzero]
      simp
    · refine ⟨_, ?_, agreesWith_of_pos hv hpos hle⟩
      rw [ExactScalar.div_eq _ _ _ hpos.ne']
      simp [hpos.ne']
  · rw [if_neg hfinite] at hvalues
    refine ⟨.unbounded, ?_, agreesWith_of_none hvalues⟩
    rw [conditioning_eq, hvalues]

/-- **Rank check and condition number agree**, for every matrix of extended scalars. If the matrix
is not square, both refuse it for the same cause. Otherwise it has a condition number, which is at
least one; the matrix is singular to the threshold zero exactly if that is infinite; and it is
singular to a threshold above zero, in particular to the standard one, exactly if that is at least
the reciprocal of the threshold. -/
theorem isSingular_iff_conditioning (a : DenseMatrix (Extended K)) :
    (a.cols ≠ a.rows → (Fault.notSquare a.shape).kind = .value ∧
      a.conditioning = .error (.notSquare a.shape) ∧ ∀ t,
      a.isSingular t = .error (.notSquare a.shape)) ∧
    (a.cols = a.rows → ∃ c, a.conditioning = .ok c ∧
      Scalar.le Scalar.one c.number = true ∧
      a.isSingular (.given Scalar.zero) = .ok (Scalar.eq c.number Scalar.infinity) ∧
      (∀ t, Scalar.lt Scalar.zero t = true →
        a.isSingular (.given t) = .ok (Scalar.le (Scalar.div .double Scalar.one t) c.number)) ∧
      (0 < (Scalar.epsilon a.precision : K) → ∀ factor, Scalar.lt Scalar.zero factor = true →
        a.isSingular (.standard factor) = .ok
          (Scalar.le (Scalar.div .double Scalar.one (standardThreshold factor a.rows a.precision))
            c.number))) := by
  refine ⟨fun hsquare => ⟨rfl, conditioning_of_ne hsquare⟩, fun hsquare => ?_⟩
  obtain ⟨c, hc, hagrees⟩ := exists_agreesWith hsquare
  refine ⟨c, hc, hagrees.one_le, hagrees.of_zero, ?_, ?_⟩
  · intro t ht
    exact hagrees.of_pos (.given t) t rfl ht
  · intro hepsilon factor hfactor
    exact hagrees.of_pos (.standard factor) _ rfl
      (zero_lt_standardThreshold a.rows_pos hepsilon hfactor)

end DenseMatrix

/-! ### A matrix, one with an undefined entry, and one that is not square -/

attribute [local instance] monomialSingularValues

/-- The sums of absolute values are not below zero. -/
theorem nonnegative_monomialSingularValues : NonnegativeSingularValues ℚ := by
  refine ⟨fun p n g i => ?_⟩
  show Scalar.lt ((Vector.ofFn fun i => DenseMatrix.sum p fun j => Scalar.abs (g.get i j)).get i)
      Scalar.zero = false
  rw [Vector.get_eq_getElem, Vector.getElem_ofFn, DenseMatrix.sum_eq_sum]
  simpa using Finset.sum_nonneg fun j _ => abs_nonneg (g.get i j)

/-- The matrix with the rows `(0, 2)` and `(x, 0)`. -/
def exchanging (x : Extended ℚ) : DenseMatrix (Extended ℚ) :=
  ⟨.double, 2, 2, Nat.two_pos, Nat.two_pos, .ofFn fun i j =>
    if i = j then .number 0 else if i < j then .number 2 else x⟩

/-- The column `(1, 1)`. -/
def twoOnes : DenseMatrix (Extended ℚ) :=
  ⟨.double, 2, 1, Nat.two_pos, Nat.one_pos, .ofFn fun _ _ => .number 1⟩

/-- With three in the second row the condition number is three halves, so the matrix is singular to
the threshold two thirds, but not to the standard one; with an undefined entry a matrix is singular
to the threshold zero; and a column is refused. -/
theorem isSingular_iff_conditioning_of_exchanging :
    (∃ c, (exchanging (.number 3)).conditioning = .ok c ∧ c.number = .number (3 / 2) ∧
      (exchanging (.number 3)).isSingular (.given (.number (2 / 3))) = .ok true ∧
      (exchanging (.number 3)).isSingular (.standard Scalar.one) = .ok false) ∧
    (∃ c, (exchanging .undefined).conditioning = .ok c ∧
      (exchanging .undefined).isSingular (.given Scalar.zero) =
      .ok (Scalar.eq c.number Scalar.infinity)) ∧
    twoOnes.conditioning = .error (.notSquare twoOnes.shape) := by
  have := nonnegative_monomialSingularValues
  obtain ⟨-, hnumbers⟩ := DenseMatrix.isSingular_iff_conditioning (exchanging (.number 3))
  obtain ⟨-, hundefined⟩ := DenseMatrix.isSingular_iff_conditioning (exchanging .undefined)
  obtain ⟨hcolumn, -⟩ := DenseMatrix.isSingular_iff_conditioning twoOnes
  refine ⟨?_, ?_, ?_⟩
  · have hratio : (exchanging (.number 3)).conditioning.toOption.map Conditioning.number =
        some (.number (3 / 2)) := by decide +kernel
    obtain ⟨c, hc, -, -, hgiven, hstandard⟩ := hnumbers rfl
    rw [hc] at hratio
    have hnumber : c.number = .number (3 / 2) := Option.some.inj hratio
    refine ⟨c, hc, hnumber, ?_, ?_⟩
    · rw [hgiven _ (by decide +kernel), hnumber]
      exact congrArg Except.ok (by decide +kernel)
    · rw [hstandard (by decide +kernel) _ (by decide +kernel), hnumber]
      exact congrArg Except.ok (by decide +kernel)
  · obtain ⟨c, hc, -, hzero, -⟩ := hundefined rfl
    exact ⟨c, hc, hzero⟩
  · exact (hcolumn (by decide)).2.1

end NewtonRaphson
