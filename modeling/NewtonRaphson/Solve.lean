import NewtonRaphson.Elimination
import NewtonRaphson.SingularValues

/-! # Linear systems

A system is solved only if its matrix passes the rank check, and a solution is handed out only if it
is finite. -/

namespace NewtonRaphson

variable {S : Type} [SingularValues S]

/-- The solution of `a x = b` for each column of `b`. The checks run in this order: the matrix is
square, the right-hand side fits, the precisions agree, the rank suffices, no pivot is zero, the
solution is finite. -/
def solve (threshold : Threshold S) (a b : DenseMatrix S) : Except Fault (DenseMatrix S) := do
  let coefficients ← a.square
  if h : b.rows = a.rows then
    if a.precision = b.precision then
      if ← a.isSingular threshold then throw (.rankDeficient a.shape)
      match Elimination.solve? a.precision coefficients (b.grid.castRows h) with
      | none => throw .zeroPivot
      | some x =>
        let x := DenseMatrix.mk a.precision a.rows b.cols a.rows_pos b.cols_pos x
        if x.isFinite then return x else throw .infiniteSolution
    else throw (.mixedPrecision .solving a.precision b.precision)
  else throw (.rightHandSide b.rows a.rows)

end NewtonRaphson
