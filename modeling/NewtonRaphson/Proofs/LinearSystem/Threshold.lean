import NewtonRaphson.Proofs.LinearSystem
import NewtonRaphson.Proofs.OrderedScalar.Monotone
import NewtonRaphson.Proofs.SingularValues

/-! # A higher threshold rejects more

The threshold of the rank check decides whether a system is solved, and has no part in its solution.
The higher it is, the more matrices are rejected.

* **`Threshold.AtMost`** — one threshold is at most another: both are given, or both are standard
  ones.
* **`DenseMatrix.isSingular_mono`** — a matrix that a threshold rejects is rejected by every higher
  one.
* **`solve_of_atMost`** — with a higher threshold a system is solved in the same way or its matrix
  is rejected. -/

namespace NewtonRaphson

variable {S : Type}

/-! ## (1) Thresholds in order -/

/-- One threshold is **at most** another: two given ones are compared as they are, two standard ones
by their factors, which are above zero. -/
inductive Threshold.AtMost [Scalar S] : Threshold S → Threshold S → Prop
  /-- Given thresholds of any sign. -/
  | given {x y : S} (h : Scalar.le x y = true) : AtMost (.given x) (.given y)
  /-- Standard thresholds. -/
  | standard {f g : S} (hf : Scalar.lt Scalar.zero f = true) (h : Scalar.le f g = true) :
      AtMost (.standard f) (.standard g)

/-- Thresholds in order have values in order. -/
theorem Threshold.AtMost.exists_values [Scalar S] [OrderedScalar S] [MonotoneScalar S]
    {t u : Threshold S} (h : t.AtMost u) {n : Nat} (hn : 0 < n) (p : Precision) :
    ∃ x y, t.value n p = .ok x ∧ u.value n p = .ok y ∧ Scalar.le x y = true := by
  cases h with
  | given h => exact ⟨_, _, rfl, rfl, h⟩
  | standard hf h => exact ⟨_, _, rfl, rfl, standardThreshold_le hf h hn p⟩

variable [SingularValues S]

/-! ## (2) The rank check -/

namespace DenseMatrix

/-- The smallest and the largest singular value are not below zero. -/
theorem not_lt_zero_of_singularValues [NonnegativeSingularValues S] {a : DenseMatrix S}
    {v : Vector S a.rows} (h : a.singularValues = .ok (some v)) :
    Scalar.lt (smallest v a.rows_pos) Scalar.zero = false ∧
      Scalar.lt (largest v a.rows_pos) Scalar.zero = false := by
  have hall : ∀ i, Scalar.lt (v.get i) Scalar.zero = false := by
    by_cases hsquare : a.cols = a.rows
    · rw [singularValues, square_of_eq hsquare] at h
      have hvalues := Except.ok.inj h
      split at hvalues
      · obtain rfl := Option.some.inj hvalues
        exact NonnegativeSingularValues.not_lt_zero _ _
      · cases hvalues
    · rw [singularValues, square_of_ne hsquare] at h
      cases h
  obtain ⟨i, hi⟩ := smallest_eq_get v a.rows_pos
  obtain ⟨j, hj⟩ := largest_eq_get v a.rows_pos
  rw [hi, hj]
  exact ⟨hall i, hall j⟩

variable [OrderedScalar S] [TransitiveScalar S] [MonotoneScalar S]

/-- What is at most a multiple of `high` is at most every greater multiple, if neither it nor `high`
is below zero and `high` is not zero. -/
theorem le_mul_of_le {low high t u : S} (hlow : Scalar.lt low Scalar.zero = false)
    (hhigh : Scalar.lt high Scalar.zero = false) (hne : Scalar.eq high Scalar.zero = false)
    (htu : Scalar.le t u = true) (h : Scalar.le low (Scalar.mul .double t high) = true) :
    Scalar.le low (Scalar.mul .double u high) = true := by
  have hzero (x : S) (hx : Scalar.isOrdered x = true) (hnot : Scalar.lt x Scalar.zero = false) :
      Scalar.le Scalar.zero x = true := by
    rw [OrderedScalar.lt_eq_not_le hx OrderedScalar.zero_le_zero, Bool.not_eq_false'] at hnot
    exact hnot
  have hproduct : Scalar.le Scalar.zero (Scalar.mul .double t high) = true :=
    TransitiveScalar.le_trans (hzero low (OrderedScalar.isOrdered_of_le _ _ h).1 hlow) h
  have habove : Scalar.le high Scalar.zero = false := by
    refine Bool.eq_false_iff.mpr fun hle => ?_
    rw [MonotoneScalar.le_antisymm hle
      (hzero high (OrderedScalar.isOrdered_of_le _ _ hle).1 hhigh)] at hne
    cases hne
  exact TransitiveScalar.le_trans h (MonotoneScalar.mul_le_mul htu habove (.inr hproduct))

variable [NonnegativeSingularValues S]

/-- The verdicts of the rank check with thresholds in order: what the lower one rejects, the higher
one rejects. -/
theorem isSingular_cases {t u : Threshold S} (h : t.AtMost u) {a : DenseMatrix S}
    (hsquare : a.cols = a.rows) :
    ∃ lower higher, a.isSingular t = .ok lower ∧ a.isSingular u = .ok higher ∧
      (lower = true → higher = true) := by
  obtain ⟨x, y, hx, hy, hxy⟩ := h.exists_values a.rows_pos a.precision
  rw [isSingular_eq, isSingular_eq, hx, hy]
  rcases hv : a.singularValues with cause | _ | v
  · rw [singularValues, square_of_eq hsquare] at hv
    cases hv
  · exact ⟨true, true, rfl, rfl, id⟩
  · dsimp only
    obtain ⟨hlow, hhigh⟩ := not_lt_zero_of_singularValues hv
    cases hne : Scalar.eq (largest v a.rows_pos) Scalar.zero with
    | true => exact ⟨true, true, rfl, rfl, id⟩
    | false => exact ⟨_, _, rfl, rfl, le_mul_of_le hlow hhigh hne hxy⟩

/-- **A matrix that a threshold rejects is rejected by every higher one.** -/
theorem isSingular_mono {t u : Threshold S} (h : t.AtMost u) {a : DenseMatrix S}
    (hdeficient : a.isSingular t = .ok true) : a.isSingular u = .ok true := by
  by_cases hsquare : a.cols = a.rows
  · obtain ⟨lower, higher, ht, hu, himp⟩ := isSingular_cases h hsquare
    rw [ht] at hdeficient
    rw [hu, himp (Except.ok.inj hdeficient)]
  · rw [isSingular_eq, singularValues, square_of_ne hsquare] at hdeficient
    cases hdeficient

end DenseMatrix

/-! ## (3) Solving -/

/-- A matrix that the rank check rejects is not solved for any right-hand side that fits. -/
theorem solve_of_deficient {t : Threshold S} {a b : DenseMatrix S} (h : a.isSingular t = .ok true)
    (hrows : b.rows = a.rows) (hprecision : a.precision = b.precision) :
    solve t a b = .error (.rankDeficient a.shape) := by
  by_cases hsquare : a.cols = a.rows
  · rw [solve_of_fits hsquare hrows hprecision, h]
  · rw [DenseMatrix.isSingular_eq, DenseMatrix.singularValues,
      DenseMatrix.square_of_ne hsquare] at h
    cases h

/-- **With a higher threshold** a system is solved or refused as before, unless its matrix is
rejected. -/
theorem solve_of_atMost [OrderedScalar S] [TransitiveScalar S] [MonotoneScalar S]
    [NonnegativeSingularValues S] {t u : Threshold S} (h : t.AtMost u) (a b : DenseMatrix S) :
    solve u a b = solve t a b ∨
      a.isSingular u = .ok true ∧ solve u a b = .error (.rankDeficient a.shape) := by
  by_cases hsquare : a.cols = a.rows
  · by_cases hrows : b.rows = a.rows
    · by_cases hprecision : a.precision = b.precision
      · obtain ⟨lower, higher, ht, hu, himp⟩ := DenseMatrix.isSingular_cases h hsquare
        cases higher with
        | true => exact .inr ⟨hu, solve_of_deficient hu hrows hprecision⟩
        | false =>
          cases lower with
          | true => exact absurd (himp rfl) Bool.false_ne_true
          | false =>
            rw [solve_of_fits hsquare hrows hprecision,
              solve_of_fits hsquare hrows hprecision, ht, hu]
            exact .inl rfl
      · rw [solve_of_precision_ne hsquare hrows hprecision,
          solve_of_precision_ne hsquare hrows hprecision]
        exact .inl rfl
    · rw [solve_of_rows_ne hsquare hrows, solve_of_rows_ne hsquare hrows]
      exact .inl rfl
  · rw [solve_of_cols_ne hsquare, solve_of_cols_ne hsquare]
    exact .inl rfl

end NewtonRaphson
