import NewtonRaphson.Proofs.DenseMatrix
import NewtonRaphson.Proofs.ExactScalar

/-! # The algebra of matrices

Over exact scalars, sums and products of matrices are those of algebra, and the checks of precisions
and shapes do not spoil its laws: where one side of a law is refused the other is too.

* **`DenseMatrix.toMatrix_gridProduct`** — a product of grids is the product of the matrices of
  algebra; the laws of products of grids follow.
* **`DenseMatrix.mul_assoc_or_refused`**, **`DenseMatrix.mul_add_or_refused`**,
  **`DenseMatrix.transpose_mul_or_refused`** — the laws for all matrices, also those that do not
  fit. -/

namespace NewtonRaphson

/-! ## (1) Computations that may be refused -/

section Computations

variable {α β : Type} {x y : Except Fault α}

/-- Computations with the same results are refused for the same operands. -/
theorem toOption_eq_of_forall (h : ∀ a, x = .ok a ↔ y = .ok a) : x.toOption = y.toOption := by
  cases x with
  | ok a => rw [(h a).mp rfl]
  | error cause =>
    cases y with
    | ok a => cases (h a).mpr rfl
    | error cause' => rfl

/-- A computation in two parts returns a result exactly if both parts return one. -/
theorem bind_eq_ok_iff {f : α → Except Fault β} {b : β} :
    (x >>= f) = .ok b ↔ ∃ a, x = .ok a ∧ f a = .ok b := by
  cases x with
  | ok a =>
    refine ⟨fun h => ⟨a, rfl, h⟩, ?_⟩
    rintro ⟨_, ha, h⟩
    cases ha
    exact h
  | error cause =>
    constructor
    · intro h
      cases h
    · rintro ⟨_, ha, -⟩
      cases ha

/-- A result that is passed on through a function. -/
theorem map_eq_ok_iff {f : α → β} {b : β} : x.map f = .ok b ↔ ∃ a, x = .ok a ∧ f a = b := by
  cases x with
  | ok a =>
    exact ⟨fun h => ⟨a, rfl, Except.ok.inj h⟩,
      fun ⟨_, ha, h⟩ => Except.ok.inj ha ▸ congrArg Except.ok h⟩
  | error cause =>
    constructor
    · intro h
      cases h
    · rintro ⟨_, ha, -⟩
      cases ha

end Computations

/-! ## (2) Grids -/

namespace Grid

variable {S : Type} {r c : ℕ}

theorem toMatrix_inj {a b : Grid S r c} : a.toMatrix = b.toMatrix ↔ a = b :=
  ⟨fun h => ext fun i j => congrFun (congrFun h i) j, congrArg toMatrix⟩

theorem toMatrix_transpose (a : Grid S r c) : a.transpose.toMatrix = a.toMatrix.transpose := by
  funext i j
  rw [toMatrix_apply, get_transpose, Matrix.transpose_apply, toMatrix_apply]

/-- The grid of an identity matrix. -/
def identity [Scalar S] (n : ℕ) : Grid S n n :=
  .ofFn fun i j => if i = j then Scalar.one else Scalar.zero

end Grid

namespace DenseMatrix

section Grids

variable {K : Type} [CommRing K] [Scalar K] [RingScalar K] (p : Precision) {r n k c : ℕ}

/-- The sum of grids is that of the matrices. -/
theorem toMatrix_gridSum (a b : Grid K r c) :
    (a.zipWith (Scalar.add p) b).toMatrix = a.toMatrix + b.toMatrix := by
  funext i j
  rw [Grid.toMatrix_apply, Grid.get_zipWith, RingScalar.add_eq, Matrix.add_apply]
  rfl

/-- **The product of grids is that of the matrices.** -/
theorem toMatrix_gridProduct (a : Grid K r n) (b : Grid K n c) :
    (gridProduct p a b).toMatrix = a.toMatrix * b.toMatrix := by
  funext i j
  rw [Grid.toMatrix_apply, gridProduct, Grid.get_ofFn, sum_eq_sum, Matrix.mul_apply]
  exact Finset.sum_congr rfl fun l _ => RingScalar.mul_eq p _ _

/-- The grid of the identity matrix is the identity. -/
theorem toMatrix_identity (n : ℕ) : (Grid.identity n : Grid K n n).toMatrix = 1 := by
  funext i j
  rw [Grid.toMatrix_apply, Grid.identity, Grid.get_ofFn, Matrix.one_apply, RingScalar.one_eq,
    RingScalar.zero_eq]

theorem gridProduct_assoc (a : Grid K r n) (b : Grid K n k) (x : Grid K k c) :
    gridProduct p (gridProduct p a b) x = gridProduct p a (gridProduct p b x) := by
  simp only [← Grid.toMatrix_inj, toMatrix_gridProduct, Matrix.mul_assoc]

/-- A product with a sum is the sum of the products. -/
theorem gridProduct_add (a : Grid K r n) (x y : Grid K n c) :
    gridProduct p a (x.zipWith (Scalar.add p) y) =
      (gridProduct p a x).zipWith (Scalar.add p) (gridProduct p a y) := by
  simp only [← Grid.toMatrix_inj, toMatrix_gridProduct, toMatrix_gridSum, Matrix.mul_add]

theorem transpose_gridProduct (a : Grid K r n) (b : Grid K n c) :
    (gridProduct p a b).transpose = gridProduct p b.transpose a.transpose := by
  simp only [← Grid.toMatrix_inj, toMatrix_gridProduct, Grid.toMatrix_transpose,
    Matrix.transpose_mul]

theorem identity_gridProduct (a : Grid K r c) : gridProduct p (Grid.identity r) a = a := by
  rw [← Grid.toMatrix_inj, toMatrix_gridProduct, toMatrix_identity, Matrix.one_mul]

theorem gridProduct_identity (a : Grid K r c) : gridProduct p a (Grid.identity c) = a := by
  rw [← Grid.toMatrix_inj, toMatrix_gridProduct, toMatrix_identity, Matrix.mul_one]

end Grids

/-! ## (3) The laws -/

section Transposes

variable {S : Type}

/-- Rows and columns are exchanged as those of the grid are. -/
theorem transpose_mk {p : Precision} {rows cols : ℕ} {hr : 0 < rows} {hc : 0 < cols}
    (x : Grid S rows cols) :
    (mk p rows cols hr hc x).transpose = ⟨p, cols, rows, hc, hr, x.transpose⟩ := rfl

/-- Exchanging rows and columns twice changes nothing. -/
theorem transpose_transpose (a : DenseMatrix S) : a.transpose.transpose = a :=
  congrArg (mk a.precision a.rows a.cols a.rows_pos a.cols_pos) a.grid.transpose_transpose

end Transposes

section Laws

variable {K : Type} [CommRing K] [Scalar K] [RingScalar K]

/-- **Products associate**, or both ways are refused. -/
theorem mul_assoc_or_refused (a b c : DenseMatrix K) :
    (do (← a.mul b).mul c).toOption = (do a.mul (← b.mul c)).toOption := by
  refine toOption_eq_of_forall fun m => ?_
  simp only [bind_eq_ok_iff, mul_eq_ok_iff_isProduct]
  -- the sizes that one side demands are those that the other demands
  constructor
  · rintro ⟨_, ⟨x, y⟩, hm⟩
    cases hm with
    | mk _ z =>
      refine ⟨_, .mk y z, ?_⟩
      rw [gridProduct_assoc]
      exact .mk x _
  · rintro ⟨_, ⟨y, z⟩, hm⟩
    cases hm with
    | mk x _ =>
      refine ⟨_, .mk x y, ?_⟩
      rw [← gridProduct_assoc]
      exact .mk _ z

/-- **Products distribute over sums**, or both ways are refused. -/
theorem mul_add_or_refused (a b c : DenseMatrix K) :
    (do a.mul (← b.add c)).toOption = (do (← a.mul b).add (← a.mul c)).toOption := by
  refine toOption_eq_of_forall fun m => ?_
  simp only [bind_eq_ok_iff, mul_eq_ok_iff_isProduct, add, combine_eq_ok_iff_isCombination]
  constructor
  · rintro ⟨_, ⟨y, z⟩, hm⟩
    cases hm with
    | mk x _ =>
      refine ⟨_, .mk x y, _, .mk x z, ?_⟩
      rw [gridProduct_add]
      exact .mk _ _
  · rintro ⟨_, ⟨x, y⟩, _, hc, hm⟩
    cases hc with
    | mk _ z =>
      cases hm with
      | mk _ _ =>
        refine ⟨_, .mk y z, ?_⟩
        rw [← gridProduct_add]
        exact .mk x _

/-- **Exchanging rows and columns reverses products**, or both ways are refused. -/
theorem transpose_mul_or_refused (a b : DenseMatrix K) :
    ((a.mul b).map transpose).toOption = (b.transpose.mul a.transpose).toOption := by
  refine toOption_eq_of_forall fun m => ?_
  simp only [map_eq_ok_iff, mul_eq_ok_iff_isProduct]
  constructor
  · rintro ⟨_, ⟨x, y⟩, rfl⟩
    simp only [transpose_mk, transpose_gridProduct]
    exact .mk _ _
  · intro h
    obtain ⟨p, r, n, hr, hn, x⟩ := a
    obtain ⟨q, l, k, hl, hk, y⟩ := b
    -- the product of the exchanged factors fixes the sizes of both
    cases h
    exact ⟨_, .mk x y, by rw [transpose_mk, transpose_gridProduct]⟩

/-- The identity matrices are neutral. -/
theorem identity_mul (a : DenseMatrix K) : (identity a.precision a.rows a.rows_pos).mul a = .ok a :=
  mul_eq_ok_iff.mpr ⟨a.grid, rfl, identity_gridProduct a.precision a.grid⟩

theorem mul_identity (a : DenseMatrix K) : a.mul (identity a.precision a.cols a.cols_pos) = .ok a :=
  mul_eq_ok_iff.mpr ⟨_, rfl, gridProduct_identity a.precision a.grid⟩

end Laws

end DenseMatrix

end NewtonRaphson
