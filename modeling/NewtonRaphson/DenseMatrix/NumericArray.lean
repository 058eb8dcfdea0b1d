import NewtonRaphson.DenseMatrix
import NewtonRaphson.Scalar.Binary

/-! # Matrices and arrays of numbers

A matrix hands out its entries as an array, and an array of numbers of either precision is read as a
matrix: one with a single length as a column vector, one with two as a matrix of this size. -/

namespace NewtonRaphson

/-- An **array** of numbers of one precision. -/
structure NumericArray where
  /-- The precision of the numbers. -/
  precision : Precision
  /-- The lengths from the outside in. -/
  extent : List Nat
  /-- The numbers, the innermost index counting fastest. -/
  entries : List Float

namespace DenseMatrix

/-- The entries of a matrix as an array of their own. -/
def toArray (a : DenseMatrix Float) : NumericArray := ⟨a.precision, [a.rows, a.cols], a.entries⟩

/-- The matrix of an array, each number rounded to a precision. -/
def ofArray (p : Precision) (x : NumericArray) : Except Fault (DenseMatrix Float) :=
  match x.extent with
  | [n] => ofList p n 1 x.entries
  | [r, c] => ofList p r c x.entries
  | extent => .error (.depth extent.length)

end DenseMatrix

end NewtonRaphson
