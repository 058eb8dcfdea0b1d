import Mathlib.Tactic.Abel
import NewtonRaphson.Proofs.DenseMatrix.Algebra
import NewtonRaphson.Proofs.LinearSystem

/-! # Matrices over exact scalars

Sums and products of matrices of exact scalars obey the laws of algebra. Of these, what a step on a
linear gradient needs:

* **`DenseMatrix.IsZero`** — every entry is zero; adding a matrix changes nothing exactly if it is
  zero (`DenseMatrix.eq_left_iff_of_add`).
* **`DenseMatrix.isZero_iff_of_solve`** — a system has the solution zero exactly if its right-hand
  side is.
* **`DenseMatrix.residual`** — what is left of `a x - b`; the solution of `a d = -(a x - b)` leads
  from any `x` to a solution of `a y = b` (`DenseMatrix.mul_of_add_correction`). -/

namespace NewtonRaphson

namespace DenseMatrix

/-! ## (1) Matrices of one size -/

section Sizes

variable {S : Type} {p : Precision} {r c : ℕ}

/-- A matrix of a known shape and precision is a grid of that size. -/
theorem exists_eq_mk {a : DenseMatrix S} (hp : p = a.precision) (hs : a.shape = (r, c)) :
    ∃ (hr : 0 < r) (hc : 0 < c) (g : Grid S r c), a = ⟨p, r, c, hr, hc, g⟩ := by
  obtain ⟨q, r', c', hr', hc', g⟩ := a
  obtain ⟨rfl, rfl⟩ := Prod.mk.inj hs
  obtain rfl : p = q := hp
  exact ⟨hr', hc', g, rfl⟩

variable {hr : 0 < r} {hc : 0 < c}

/-- Matrices of one size and precision are combined as their grids are. -/
theorem combine_mk (operation : Operation) (f : Precision → S → S → S) (x y : Grid S r c) :
    combine operation f ⟨p, r, c, hr, hc, x⟩ ⟨p, r, c, hr, hc, y⟩ =
      .ok ⟨p, r, c, hr, hc, x.zipWith (f p) y⟩ :=
  combine_eq_ok_iff_isCombination.mpr (.mk x y)

/-- The residual of a point in a linear system: `a x - b`. -/
def residual [Scalar S] (a b x : DenseMatrix S) : Except Fault (DenseMatrix S) := do
  (← a.mul x).sub b

/-- The residual where the sizes fit. -/
theorem residual_mk [Scalar S] {n : ℕ} {hn : 0 < n} (a : Grid S r n) (b : Grid S r c)
    (x : Grid S n c) :
    residual ⟨p, r, n, hr, hn, a⟩ ⟨p, r, c, hr, hc, b⟩ ⟨p, n, c, hn, hc, x⟩ =
      .ok ⟨p, r, c, hr, hc, (gridProduct p a x).zipWith (Scalar.sub p) b⟩ := by
  have hmul : (mk p r n hr hn a).mul ⟨p, n, c, hn, hc, x⟩ =
      .ok ⟨p, r, c, hr, hc, gridProduct p a x⟩ :=
    mul_eq_ok_iff.mpr ⟨x, rfl, rfl⟩
  rw [residual, hmul]
  exact combine_mk .subtraction Scalar.sub (gridProduct p a x) b

end Sizes

/-! ## (2) Sums and differences -/

variable {K : Type} [Field K] [LinearOrder K]

/-- A matrix is **zero** if all its entries are. -/
def IsZero (a : DenseMatrix K) : Prop := ∀ i j, a.grid.get i j = 0

section Sums

variable [Scalar K] [ExactScalar K] {x d y : DenseMatrix K}

/-- What was added is the difference. -/
theorem sub_of_add (h : x.add d = .ok y) : y.sub x = .ok d := by
  obtain ⟨hp, hy, hyx, hyd, hentries⟩ := add_eq_ok_iff.mp h
  refine combine_eq_ok_iff.mpr ⟨hy, hp.symm.trans hy.symm, ⟨hyd.1.symm, hyd.2.symm⟩,
    ⟨hyd.1.symm.trans hyx.1, hyd.2.symm.trans hyx.2⟩, fun i j => ?_⟩
  have hsum := hentries (i.cast hyd.1.symm) (j.cast hyd.2.symm)
  rw [ExactScalar.add_eq] at hsum
  rw [ExactScalar.sub_eq, hsum]
  exact (add_sub_cancel_left _ _).symm

/-- Adding a matrix changes nothing exactly if the matrix is zero. -/
theorem eq_left_iff_of_add (h : x.add d = .ok y) : y = x ↔ d.IsZero := by
  obtain ⟨hp, hy, hyx, hyd, hentries⟩ := add_eq_ok_iff.mp h
  simp only [ExactScalar.add_eq] at hentries
  constructor
  · rintro rfl i j
    exact left_eq_add.mp (hentries (i.cast hyd.1.symm) (j.cast hyd.2.symm))
  · intro hzero
    refine ext_get hy hyx.1 hyx.2 fun i j => ?_
    rw [hentries i j, hzero, add_zero]

/-- A matrix is zero exactly if the matrix with all signs changed is. -/
theorem isZero_neg_iff {a : DenseMatrix K} : a.neg.IsZero ↔ a.IsZero := by
  have hget (i : Fin a.rows) (j : Fin a.cols) : a.neg.grid.get i j = -a.grid.get i j :=
    (Grid.get_map _ a.grid i j).trans (ExactScalar.neg_eq _ _)
  exact forall₂_congr fun i j => (hget i j).symm ▸ neg_eq_zero

end Sums

/-! ## (3) Products -/

section Products

variable [Scalar K] [ExactScalar K]

/-- A product with a matrix that is zero is zero. -/
theorem isZero_of_mul {a x y : DenseMatrix K} (h : a.mul x = .ok y) (hx : x.IsZero) : y.IsZero := by
  obtain ⟨A, X⟩ := mul_eq_ok_iff_isProduct.mp h
  have hzero : ∀ i j, X.get i j = 0 := hx
  intro i j
  simp only [gridProduct, sum_eq_sum, Grid.get_ofFn, ExactScalar.mul_eq, hzero, mul_zero,
    Finset.sum_const_zero]

/-- **Corrections lead to solutions**: if `d` solves `a d = -(a x - b)` then `x + d` solves
`a y = b`. -/
theorem mul_of_add_correction {p : Precision} {n c : ℕ} {hn : 0 < n} {hc : 0 < c} {a : Grid K n n}
    {b x d : Grid K n c}
    (hd : gridProduct p a d = ((gridProduct p a x).zipWith (Scalar.sub p) b).map (Scalar.neg p)) :
    (mk p n n hn hn a).mul ⟨p, n, c, hn, hc, x.zipWith (Scalar.add p) d⟩ =
      .ok ⟨p, n, c, hn, hc, b⟩ := by
  refine mul_eq_ok_iff.mpr ⟨_, rfl, ?_⟩
  rw [gridProduct_add, hd]
  refine Grid.ext fun i j => ?_
  simp only [Grid.get_zipWith, Grid.get_map, ExactScalar.add_eq, ExactScalar.sub_eq,
    ExactScalar.neg_eq]
  abel

/-- The residual of a solution is zero. -/
theorem exists_residual_of_mul {a b x : DenseMatrix K} (h : a.mul x = .ok b) :
    ∃ g, residual a b x = .ok g ∧ g.IsZero := by
  obtain ⟨p, r, c, hr, hc, B⟩ := b
  refine ⟨⟨p, r, c, hr, hc, B.zipWith (Scalar.sub p) B⟩, ?_, fun i j => ?_⟩
  · rw [residual, h]
    exact combine_mk .subtraction Scalar.sub B B
  · exact (Grid.get_zipWith _ B B i j).trans ((ExactScalar.sub_eq p _ _).trans (sub_self _))

end Products

/-! ## (4) Norms -/

section Norms

variable [Scalar K] [ExactScalar K]

/-- A running sum of squares of zeros is zero. -/
theorem foldl_squares_eq_zero (p : Precision) {xs : List K} (h : ∀ x ∈ xs, x = 0) :
    xs.foldl (fun s x => Scalar.add p s (Scalar.mul p x x)) 0 = 0 := by
  induction xs with
  | nil => rfl
  | cons x xs ih =>
    rw [List.foldl_cons, h x List.mem_cons_self, ExactScalar.mul_eq, ExactScalar.add_eq, mul_zero,
      add_zero]
    exact ih fun y hy => h y (List.mem_cons_of_mem x hy)

/-- The norm of a matrix that is zero is the root of zero. -/
theorem norm_of_isZero {a : DenseMatrix K} (h : a.IsZero) : a.norm = Scalar.sqrt a.precision 0 := by
  have hentries : ∀ x ∈ a.entries, x = 0 := by
    intro x hx
    obtain ⟨i, j, rfl⟩ := Grid.exists_get_of_mem_entries hx
    exact h i j
  rw [norm, ExactScalar.zero_eq, foldl_squares_eq_zero a.precision hentries]

end Norms

/-! ## (5) Solutions -/

section Solutions

variable [SingularValues K] [ExactScalar K]

/-- A system has the solution zero exactly if its right-hand side is zero. -/
theorem isZero_iff_of_solve {threshold : Threshold K} {a b x : DenseMatrix K}
    (h : solve threshold a b = .ok x) : x.IsZero ↔ b.IsZero := by
  have hx : a.mul x = .ok b := (mul_eq_ok_iff_of_solve h x).mpr rfl
  refine ⟨isZero_of_mul hx, fun hb => ?_⟩
  obtain ⟨hsquare, hrows, hprecision, -⟩ := accepted_of_solve_eq_ok h
  obtain ⟨p, n, m, hn, hm, g⟩ := a
  obtain ⟨q, r, k, hr, hk, c⟩ := b
  dsimp only at hsquare hrows hprecision
  subst hsquare hrows hprecision
  -- the matrix of zeros is a solution, so it is the one that was returned
  have hzeros : (mk p r r hn hm g).mul ⟨p, r, k, hr, hk, .ofFn fun _ _ => 0⟩ =
      .ok ⟨p, r, k, hr, hk, c⟩ := by
    refine mul_eq_ok_iff.mpr ⟨_, rfl, Grid.ext fun i j => ?_⟩
    simp only [gridProduct, sum_eq_sum, Grid.get_ofFn, ExactScalar.mul_eq, mul_zero,
      Finset.sum_const_zero]
    exact (hb i j).symm
  obtain rfl := (mul_eq_ok_iff_of_solve h _).mp hzeros
  exact fun i j => Grid.get_ofFn _ i j

end Solutions

end DenseMatrix

end NewtonRaphson
