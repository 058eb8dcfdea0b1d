import Mathlib.Analysis.Matrix.Spectrum
import Mathlib.LinearAlgebra.Eigenspace.Matrix
import NewtonRaphson.Proofs.LinearSystem
import NewtonRaphson.Proofs.SingularValues

/-! # Exact singular values

The singular values of a matrix are the roots of the eigenvalues of its transpose times itself. If a
matrix is multiplied by a number, they are multiplied by its absolute value, and so are the smallest
and the largest.

* **`ExactSingularValues K`** — the law of exact singular values.
* **`smallest_singularValues_map_mul`**, **`largest_singularValues_map_mul`** — what a factor does
  to them.
* The real numbers are scalars with exact singular values. -/

namespace NewtonRaphson

/-- **Exact singular values**: a number is among them exactly if it is not below zero and its square
is an eigenvalue of the transpose times the matrix. -/
class ExactSingularValues (K : Type) [Field K] [LinearOrder K] [SingularValues K] : Prop where
  exists_get_iff : ∀ (p : Precision) {n : ℕ} (g : Grid K n n) (s : K),
    (∃ i, (SingularValues.singularValues p g).get i = s) ↔
      0 ≤ s ∧ Module.End.HasEigenvalue (Matrix.toLin' (g.toMatrix.transpose * g.toMatrix)) (s ^ 2)

variable {K : Type} [Field K]

/-! ## (1) A factor -/

/-- A multiple of a matrix has the multiples of its eigenvalues. -/
theorem hasEigenvalue_smul_iff {n : ℕ} (m : Matrix (Fin n) (Fin n) K) {d : K} (hd : d ≠ 0) (μ : K) :
    Module.End.HasEigenvalue (Matrix.toLin' (d • m)) (d * μ) ↔
      Module.End.HasEigenvalue (Matrix.toLin' m) μ := by
  rw [Module.End.hasEigenvalue_iff_mem_spectrum,
    Module.End.hasEigenvalue_iff_mem_spectrum, map_smul]
  exact spectrum.smul_mem_smul_iff (r := Units.mk0 d hd)

/-- The transpose times the matrix takes on the square of a factor. -/
theorem transpose_mul_map_mul [LinearOrder K] [Scalar K] [ExactScalar K] (p : Precision) {n : ℕ}
    (g : Grid K n n) (c : K) :
    (g.map (Scalar.mul p · c)).toMatrix.transpose * (g.map (Scalar.mul p · c)).toMatrix =
      (c ^ 2) • (g.toMatrix.transpose * g.toMatrix) := by
  rw [Grid.toMatrix_map_mul, Matrix.transpose_smul, Matrix.smul_mul, Matrix.mul_smul, smul_smul, sq]

variable [LinearOrder K] [IsStrictOrderedRing K] [SingularValues K] [ExactScalar K]
  [ExactSingularValues K]

section Factor

variable {c : K} (hc : c ≠ 0) (p q : Precision) {n : ℕ} (g : Grid K n n)
include hc

/-- The singular values of a multiple are the multiples of the singular values. -/
theorem exists_singularValue_map_mul_iff (s : K) :
    (∃ i, (SingularValues.singularValues p (g.map (Scalar.mul q · c))).get i = |c| * s) ↔
      ∃ i, (SingularValues.singularValues p g).get i = s := by
  rw [ExactSingularValues.exists_get_iff, ExactSingularValues.exists_get_iff, transpose_mul_map_mul,
    mul_pow, sq_abs, hasEigenvalue_smul_iff _ (pow_ne_zero 2 hc),
    mul_nonneg_iff_of_pos_left (abs_pos.mpr hc)]

/-- Every singular value of a multiple is the multiple of one. -/
theorem exists_get_eq_of_map_mul (i : Fin n) :
    ∃ j, (SingularValues.singularValues p (g.map (Scalar.mul q · c))).get i =
      |c| * (SingularValues.singularValues p g).get j := by
  have hcancel (s : K) : |c| * (s / |c|) = s := mul_div_cancel₀ s (abs_pos.mpr hc).ne'
  obtain ⟨j, hj⟩ := (exists_singularValue_map_mul_iff hc p q g _).mp ⟨i, (hcancel _).symm⟩
  exact ⟨j, by rw [hj, hcancel]⟩

/-- **The smallest singular value** is multiplied by the absolute value of a factor. -/
theorem smallest_singularValues_map_mul (hn : 0 < n) :
    smallest (SingularValues.singularValues p (g.map (Scalar.mul q · c))) hn =
      |c| * smallest (SingularValues.singularValues p g) hn := by
  apply le_antisymm
  · obtain ⟨i, hi⟩ := (exists_singularValue_map_mul_iff hc p q g _).mpr
      ((smallest_eq_get (SingularValues.singularValues p g) hn).imp fun _ => Eq.symm)
    exact hi ▸ smallest_le _ hn i
  · obtain ⟨i, hi⟩ :=
      smallest_eq_get (SingularValues.singularValues p (g.map (Scalar.mul q · c))) hn
    obtain ⟨j, hj⟩ := exists_get_eq_of_map_mul hc p q g i
    rw [hi, hj]
    exact mul_le_mul_of_nonneg_left (smallest_le _ hn j) (abs_nonneg c)

/-- **So is the largest.** -/
theorem largest_singularValues_map_mul (hn : 0 < n) :
    largest (SingularValues.singularValues p (g.map (Scalar.mul q · c))) hn =
      |c| * largest (SingularValues.singularValues p g) hn := by
  apply le_antisymm
  · obtain ⟨i, hi⟩ := largest_eq_get (SingularValues.singularValues p (g.map (Scalar.mul q · c))) hn
    obtain ⟨j, hj⟩ := exists_get_eq_of_map_mul hc p q g i
    rw [hi, hj]
    exact mul_le_mul_of_nonneg_left (le_largest _ hn j) (abs_nonneg c)
  · obtain ⟨i, hi⟩ := (exists_singularValue_map_mul_iff hc p q g _).mpr
      ((largest_eq_get (SingularValues.singularValues p g) hn).imp fun _ => Eq.symm)
    exact hi ▸ le_largest _ hn i

end Factor

/-! ## (2) Real numbers -/

/-- Real numbers as scalars. -/
noncomputable instance : Scalar ℝ where
  zero := 0
  one := 1
  ofNat n := n
  add _ x y := x + y
  sub _ x y := x - y
  mul _ x y := x * y
  div _ x y := x / y
  sqrt _ x := Real.sqrt x
  neg _ x := -x
  abs x := |x|
  round _ x := x
  le x y := decide (x ≤ y)
  lt x y := decide (x < y)
  eq x y := decide (x = y)
  isFinite _ := true
  epsilon p := (Scalar.epsilon p : ℚ)

instance : ExactScalar ℝ where
  zero_eq := rfl
  one_eq := rfl
  ofNat_eq _ := rfl
  add_eq _ _ _ := rfl
  sub_eq _ _ _ := rfl
  mul_eq _ _ _ := rfl
  div_eq _ _ _ _ := rfl
  neg_eq _ _ := rfl
  abs_eq _ := rfl
  round_eq _ _ := rfl
  le_eq _ _ := rfl
  lt_eq _ _ := rfl
  eq_eq _ _ := rfl
  isFinite_eq _ := rfl

/-- The transpose times a real matrix is symmetric, and no eigenvalue of it is below zero. -/
theorem posSemidef_transpose_mul {n : ℕ} (m : Matrix (Fin n) (Fin n) ℝ) :
    (m.transpose * m).PosSemidef := by
  rw [← Matrix.conjTranspose_eq_transpose_of_trivial]
  exact Matrix.posSemidef_conjTranspose_mul_self m

/-- The singular values of a real matrix. -/
noncomputable instance : SingularValues ℝ where
  singularValues _ _ g :=
    .ofFn fun i => √((posSemidef_transpose_mul g.toMatrix).isHermitian.eigenvalues i)

instance : ExactSingularValues ℝ where
  exists_get_iff := by
    intro p n g s
    have hget (i : Fin n) : (SingularValues.singularValues p g).get i =
        √((posSemidef_transpose_mul g.toMatrix).isHermitian.eigenvalues i) := by
      rw [Vector.get_eq_getElem]
      exact Vector.getElem_ofFn _
    have hnonneg := (posSemidef_transpose_mul g.toMatrix).eigenvalues_nonneg
    rw [Module.End.hasEigenvalue_iff_mem_spectrum, Matrix.spectrum_toLin',
      (posSemidef_transpose_mul g.toMatrix).isHermitian.spectrum_real_eq_range_eigenvalues,
      Set.mem_range]
    simp only [hget]
    constructor
    · rintro ⟨i, rfl⟩
      exact ⟨Real.sqrt_nonneg _, i, (Real.sq_sqrt (hnonneg i)).symm⟩
    · rintro ⟨hs, i, hi⟩
      exact ⟨i, by rw [hi, Real.sqrt_sq hs]⟩

end NewtonRaphson
