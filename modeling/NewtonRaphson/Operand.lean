import NewtonRaphson.Datum.Number
import NewtonRaphson.DenseMatrix.Comparison
import NewtonRaphson.Scalar.Binary

/-! # Operators on matrices and plain values

The operators accept a matrix or a plain value on either side and refuse pairs that have no meaning:
sums, differences and products of matrices need two matrices, a matrix is scaled by a number on
either side and divided by a number on the right. -/

namespace NewtonRaphson

/-- One side of an operator. -/
inductive Operand where
  /-- A matrix. -/
  | matrix (m : DenseMatrix Float)
  /-- A plain value. -/
  | plain (d : Datum)

/-- An operator. -/
inductive Operator where
  | add
  | sub
  | scale
  | divide
  | multiply
  deriving DecidableEq

/-- The matrix that an operator makes of two operands. -/
def Operator.apply : Operator → Operand → Operand → Except Fault (DenseMatrix Float)
  | add, .matrix a, .matrix b => a.add b
  | sub, .matrix a, .matrix b => a.sub b
  | multiply, .matrix a, .matrix b => a.mul b
  | scale, .matrix a, .plain d | scale, .plain d, .matrix a => return a.scale (← d.toFactor)
  | divide, .matrix a, .plain d => return a.divide (← d.toFactor)
  | _, _, _ => .error .badKind

/-- Whether the operator, used to change a matrix in place, overwrites the matrix. The others make a
new matrix that takes its name. -/
def Operator.overwrites : Operator → Bool
  | add | sub => true
  | scale | divide | multiply => false

namespace Operand

/-- Equality of operands; a matrix never equals a plain value. -/
def equal : Operand → Operand → Bool
  | matrix a, matrix b => a.equal b
  | plain a, plain b => a.same b
  | _, _ => false

/-- Whether operands are not equal; a matrix always differs from a plain value. -/
def unequal : Operand → Operand → Bool
  | matrix a, matrix b => !a.equal b
  | plain a, plain b => !a.same b
  | _, _ => true

/-- Closeness of a matrix to an operand. The tolerances are looked at only if the operand is a
matrix of the same shape. -/
def close (a : DenseMatrix Float) (atol rtol : Datum) : Operand → Except Fault Bool
  | plain _ => .ok false
  | matrix b =>
    if a.shape = b.shape then do
      let rtol ← rtol.toFactor
      let atol ← atol.toFactor
      return a.close atol rtol b
    else .ok false

/-- What a matrix holds after being assigned an operand. -/
def assignTo (a : DenseMatrix Float) : Operand → Except Fault (DenseMatrix Float)
  | matrix b => a.overwrite b
  | plain d => .error (.assignedKind d.kindName)

end Operand

end NewtonRaphson
