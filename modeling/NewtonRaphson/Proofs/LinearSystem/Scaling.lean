import NewtonRaphson.Proofs.LinearSystem.Conditioning
import NewtonRaphson.Proofs.SingularValues.Exact

/-! # Systems are solved alike in every unit

A system whose matrix and right-hand sides are multiplied by one number has the same solutions. So
that it is also accepted or refused alike, the rank check compares singular values with each other,
and the number falls out of the comparison. Both hold exactly over exact scalars with exact singular
values.

* **`DenseMatrix.scale_grid`** — over exact scalars a factor is not rounded.
* **`DenseMatrix.isSingular_scale`**, **`DenseMatrix.conditioning_scale`** — a factor changes
  neither the verdict of the rank check nor the condition number.
* **`Elimination.solve?_map_mul`** — nor the solutions that elimination finds.
* **`solve_scale`** — nor what solving returns or is refused for. -/

namespace NewtonRaphson

variable {K : Type} [Field K] [LinearOrder K]

/-! ## (1) The scaled matrix -/

namespace DenseMatrix

variable [Scalar K] [ExactScalar K]

/-- Over exact scalars the factor is not rounded. -/
theorem scale_mk {p : Precision} {m n : ℕ} {hm : 0 < m} {hn : 0 < n} (g : Grid K m n) (c : K) :
    (mk p m n hm hn g).scale c = ⟨p, m, n, hm, hn, g.map (Scalar.mul p · c)⟩ := by
  rw [scale, ExactScalar.round_eq]
  rfl

/-- Signs may be changed before or after. -/
theorem neg_scale (a : DenseMatrix K) (c : K) : (a.scale c).neg = a.neg.scale c := by
  obtain ⟨p, m, n, hm, hn, g⟩ := a
  have hgrid : (g.map (Scalar.mul p · c)).map (Scalar.neg p) =
      (g.map (Scalar.neg p)).map (Scalar.mul p · c) :=
    Grid.ext fun i j => by simp
  have hneg (g : Grid K m n) :
      (mk p m n hm hn g).neg = ⟨p, m, n, hm, hn, g.map (Scalar.neg p)⟩ := rfl
  rw [scale_mk, hneg, hneg, scale_mk, hgrid]

end DenseMatrix

/-! ## (2) Elimination -/

namespace Elimination

variable [Scalar K] [ExactScalar K] {c : K} (hc : c ≠ 0) (p : Precision) {n k : ℕ}
include hc

/-- A multiple takes the same vectors to zero. -/
theorem degenerate_map_mul_iff (a : Grid K n n) :
    Degenerate (a.map (Scalar.mul p · c)) ↔ Degenerate a := by
  refine exists_congr fun v => and_congr_right fun _ => ?_
  rw [Grid.toMatrix_map_mul, Matrix.smul_mulVec, smul_eq_zero_iff_right hc]

/-- A multiple of a system has the same solutions. -/
theorem gridProduct_map_mul_iff {a : Grid K n n} {y b : Grid K n k} :
    DenseMatrix.gridProduct p (a.map (Scalar.mul p · c)) y = b.map (Scalar.mul p · c) ↔
      DenseMatrix.gridProduct p a y = b := by
  rw [gridProduct_eq_iff, gridProduct_eq_iff]
  refine forall_congr' fun j => ?_
  have hside : (b.map (Scalar.mul p · c)).column j = c • b.column j := by
    funext i
    simp [mul_comm]
  rw [hside, Grid.toMatrix_map_mul, Matrix.smul_mulVec, smul_right_inj hc]

/-- **A factor of both sides changes no solution** that elimination finds. -/
theorem solve?_map_mul [IsStrictOrderedRing K] (a : Grid K n n) (b : Grid K n k) :
    solve? p (a.map (Scalar.mul p · c)) (b.map (Scalar.mul p · c)) = solve? p a b := by
  rcases hb : solve? p a b with _ | x
  · exact solve?_eq_none_iff.mpr ((degenerate_map_mul_iff hc p a).mpr (solve?_eq_none_iff.mp hb))
  · rcases hscaled : solve? p (a.map (Scalar.mul p · c)) (b.map (Scalar.mul p · c)) with _ | y
    · -- a matrix that is degenerate only after scaling there is not
      have hdegenerate := (degenerate_map_mul_iff hc p a).mp (solve?_eq_none_iff.mp hscaled)
      rw [solve?_eq_none_iff.mpr hdegenerate] at hb
      cases hb
    · have hx : DenseMatrix.gridProduct p a x = b := (solve?_eq_some hb x).mpr rfl
      rw [(solve?_eq_some hscaled x).mp ((gridProduct_map_mul_iff hc p).mpr hx)]

end Elimination

/-! ## (3) The rank check and the condition number -/

variable [IsStrictOrderedRing K] [SingularValues K] [ExactScalar K] {c : K} (hc : c ≠ 0)
include hc

/-- The absolute value of a factor is taken out of a product that is zero or not. -/
theorem eq_abs_mul_zero (x : K) : Scalar.eq (|c| * x) Scalar.zero = Scalar.eq x Scalar.zero := by
  simp [hc]

/-- It is taken out of a comparison with a multiple, too. -/
theorem le_mul_abs_mul (p : Precision) (t x y : K) :
    Scalar.le (|c| * x) (Scalar.mul p t (|c| * y)) = Scalar.le x (Scalar.mul p t y) := by
  rw [ExactScalar.mul_eq, ExactScalar.mul_eq, ExactScalar.le_eq, ExactScalar.le_eq, mul_left_comm,
    decide_eq_decide]
  exact mul_le_mul_iff_right₀ (abs_pos.mpr hc)

variable [ExactSingularValues K]

namespace DenseMatrix

/-- **A factor changes no verdict** of the rank check. -/
theorem isSingular_scale (a : DenseMatrix K) (threshold : Threshold K) :
    (a.scale c).isSingular threshold = a.isSingular threshold := by
  by_cases hsquare : a.cols = a.rows
  · obtain ⟨p, n, m, hn, hm, g⟩ := a
    dsimp only at hsquare
    subst hsquare
    rw [scale_mk, isSingular_eq, isSingular_eq, singularValues_mk, singularValues_mk]
    dsimp only
    -- both extreme values take on the same factor, which falls out of both comparisons
    rw [smallest_singularValues_map_mul hc, largest_singularValues_map_mul hc]
    simp only [eq_abs_mul_zero hc, le_mul_abs_mul hc]
  · have hscaled : (a.scale c).cols ≠ (a.scale c).rows := hsquare
    rw [(conditioning_of_ne hscaled).2, (conditioning_of_ne hsquare).2]
    rfl

/-- **Nor does it change the condition number.** -/
theorem conditioning_scale (a : DenseMatrix K) : (a.scale c).conditioning = a.conditioning := by
  by_cases hsquare : a.cols = a.rows
  · obtain ⟨p, n, m, hn, hm, g⟩ := a
    dsimp only at hsquare
    subst hsquare
    rw [scale_mk, conditioning_eq, conditioning_eq, singularValues_mk, singularValues_mk]
    dsimp only
    rw [smallest_singularValues_map_mul hc, largest_singularValues_map_mul hc, eq_abs_mul_zero hc]
    by_cases hzero : smallest (SingularValues.singularValues p g) hn = 0
    · simp [hzero]
    · -- the factor is taken out of the ratio
      have habs : |c| ≠ 0 := (abs_pos.mpr hc).ne'
      rw [ExactScalar.div_eq _ _ _ hzero, ExactScalar.div_eq _ _ _ (mul_ne_zero habs hzero),
        mul_div_mul_left _ _ habs]
  · have hscaled : (a.scale c).cols ≠ (a.scale c).rows := hsquare
    rw [(conditioning_of_ne hscaled).1, (conditioning_of_ne hsquare).1]
    rfl

end DenseMatrix

/-! ## (4) Solving -/

/-- **A factor of both sides changes nothing** about what solving returns or is refused for. -/
theorem solve_scale (threshold : Threshold K) (a b : DenseMatrix K) :
    solve threshold (a.scale c) (b.scale c) = solve threshold a b := by
  by_cases hsquare : a.cols = a.rows
  case neg =>
    exact (solve_of_cols_ne (a := a.scale c) hsquare).trans (solve_of_cols_ne hsquare).symm
  by_cases hrows : b.rows = a.rows
  case neg =>
    exact (solve_of_rows_ne (a := a.scale c) (b := b.scale c) hsquare hrows).trans
      (solve_of_rows_ne hsquare hrows).symm
  by_cases hprecision : a.precision = b.precision
  case neg =>
    exact (solve_of_precision_ne (a := a.scale c) (b := b.scale c) hsquare hrows hprecision).trans
      (solve_of_precision_ne hsquare hrows hprecision).symm
  obtain ⟨p, n, m, hn, hm, g⟩ := a
  obtain ⟨q, r, k, hr, hk, d⟩ := b
  dsimp only at hsquare hrows hprecision
  subst hsquare hrows hprecision
  have hverdict := DenseMatrix.isSingular_scale hc (DenseMatrix.mk p r r hn hm g) threshold
  rw [DenseMatrix.scale_mk] at hverdict
  rw [DenseMatrix.scale_mk, DenseMatrix.scale_mk]
  have hfits (g : Grid K r r) (d : Grid K r k) :=
    @solve_of_fits K _ threshold ⟨p, r, r, hn, hm, g⟩ ⟨p, r, k, hr, hk, d⟩ rfl rfl rfl
  rcases hcheck : (DenseMatrix.mk p r r hn hm g).isSingular threshold with cause | _ | _
  case error => rw [hfits, hfits, hverdict, hcheck]
  case ok.true =>
    rw [hfits, hfits, hverdict, hcheck]
    rfl
  case ok.false =>
    rw [solve_mk_of_accepted (hverdict.trans hcheck), solve_mk_of_accepted hcheck,
      Elimination.solve?_map_mul hc]

end NewtonRaphson
