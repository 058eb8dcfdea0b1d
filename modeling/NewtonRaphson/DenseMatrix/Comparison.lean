import NewtonRaphson.DenseMatrix

/-! # Equality and closeness of matrices

Both compare matrices of one shape entry by entry; the precisions may differ. -/

namespace NewtonRaphson

namespace DenseMatrix

variable {S : Type}

/-- Whether two matrices have one shape and corresponding entries pass a test. -/
def agree (test : S → S → Bool) (a b : DenseMatrix S) : Bool :=
  if h : a.rows = b.rows ∧ a.cols = b.cols then
    (a.grid.zipWith test (a.gridOf b h)).all id
  else false

variable [Scalar S]

/-- Equality of matrices: one shape and equal entries. -/
def equal (a b : DenseMatrix S) : Bool := agree Scalar.eq a b

/-- Closeness of two numbers: `|x - y| ≤ atol + rtol * |y|` for a finite `y`, or equality. The bound
is computed in the precision `q` of `y`, the difference in the wider of both precisions. -/
def closeEntry (p q : Precision) (atol rtol x y : S) : Bool :=
  let bound := Scalar.add q (Scalar.round q atol)
    (Scalar.mul q (Scalar.round q rtol) (Scalar.abs y))
  (Scalar.le (Scalar.abs (Scalar.sub (p.join q) x y)) bound && Scalar.isFinite y) || Scalar.eq x y

/-- Closeness of matrices: one shape and close entries. -/
def close (atol rtol : S) (a b : DenseMatrix S) : Bool :=
  agree (closeEntry a.precision b.precision atol rtol) a b

end DenseMatrix

end NewtonRaphson
