import NewtonRaphson.Datum.Number
import NewtonRaphson.DenseMatrix
import NewtonRaphson.Scalar.Binary

/-! # Access to single entries

A key is a pair of indices, or for a column vector one index. Indices are integers from zero on and
are checked against the size; a negative index does not count from the end. -/

namespace NewtonRaphson

/-- What an entry is looked up by. -/
inductive Key where
  /-- One value, the row of a column vector. -/
  | single (given : Datum)
  /-- Several values, a row and a column if there are two. -/
  | tuple (given : List Datum)

/-- The position along an axis that a datum denotes. A truth value is no integer here. -/
def Axis.position (axis : Axis) (bound : Nat) : Datum → Except Fault (Fin bound)
  | .int n =>
    if h : 0 ≤ n ∧ n < bound then .ok ⟨n.toNat, by omega⟩ else .error (.indexRange axis n bound)
  | d => .error (.indexKind axis d)

namespace DenseMatrix

variable {S : Type}

/-- The row and column that a key denotes. -/
def locate (a : DenseMatrix S) : Key → Except Fault (Fin a.rows × Fin a.cols)
  | .tuple [i, j] => do
    let i ← Axis.row.position a.rows i
    let j ← Axis.column.position a.cols j
    return (i, j)
  | .tuple ds => .error (.indexCount ds)
  | .single i =>
    if a.cols = 1 then do
      let i ← Axis.row.position a.rows i
      return (i, ⟨0, a.cols_pos⟩)
    else .error (.singleIndex a.shape)

/-- The entry that a key denotes. -/
def getEntry (a : DenseMatrix S) (key : Key) : Except Fault S := do
  let (i, j) ← a.locate key
  return a.grid.get i j

/-- The matrix with the entry that a key denotes replaced by a datum, rounded to the precision. -/
def setEntry (a : DenseMatrix Float) (key : Key) (value : Datum) :
    Except Fault (DenseMatrix Float) := do
  let (i, j) ← a.locate key
  let x ← value.toEntry
  return a.withGrid (a.grid.set i j (Scalar.round a.precision x))

/-- The entries read one by one with the single indices from zero on, up to the first refusal: all
entries of a column vector, none of another matrix. -/
def walk (a : DenseMatrix S) : List S :=
  go a.rows
where
  /-- The entries at the last `n` indices. -/
  go : Nat → List S
    | 0 => []
    | n + 1 =>
      match a.getEntry (.single (.int (a.rows - (n + 1) : Nat))) with
      | .ok x => x :: go n
      | .error _ => []

end DenseMatrix

end NewtonRaphson
