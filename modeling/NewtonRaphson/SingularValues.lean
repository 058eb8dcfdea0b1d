import NewtonRaphson.DenseMatrix

/-! # Singular values

The singular values of a square matrix decide whether it is singular to working precision: the
smallest must exceed a threshold relative to the largest. How singular values are computed is left
to the scalars. -/

namespace NewtonRaphson

/-- Scalars with a way to compute the singular values of a square grid of finite entries. -/
class SingularValues (S : Type) extends Scalar S where
  /-- The singular values of a grid in a precision, in any order. -/
  singularValues : Precision → {n : Nat} → Grid S n n → Vector S n

/-- The relative threshold of a rank check. -/
inductive Threshold (S : Type) where
  /-- The factor times the number of rows times the distance from one to the next number. -/
  | standard (factor : S)
  /-- A given threshold. -/
  | given (x : S)
  /-- A given value that is no threshold. -/
  | unusable (cause : Fault)

/-- Whether the ratio of largest to smallest singular value is bounded. -/
inductive Conditioning (S : Type) where
  /-- The smallest singular value is zero, or there are no singular values. -/
  | unbounded
  /-- The ratio. -/
  | ratio (x : S)

variable {S : Type}

/-- The threshold for a matrix with `n` rows: the factor times `n` times epsilon. -/
def standardThreshold [Scalar S] (factor : S) (n : Nat) (p : Precision) : S :=
  Scalar.mul .double (Scalar.mul .double factor (Scalar.ofNat n)) (Scalar.epsilon p)

/-- The value of a threshold for a matrix with `n` rows. -/
def Threshold.value [Scalar S] (n : Nat) (p : Precision) : Threshold S → Except Fault S
  | standard factor => .ok (standardThreshold factor n p)
  | given x => .ok x
  | unusable cause => .error cause

/-- The smallest of several scalars. -/
def smallest [Scalar S] {n : Nat} (v : Vector S n) (h : 0 < n) : S :=
  Fin.foldl n (fun m i => if Scalar.lt (v.get i) m then v.get i else m) (v.get ⟨0, h⟩)

/-- The largest of several scalars. -/
def largest [Scalar S] {n : Nat} (v : Vector S n) (h : 0 < n) : S :=
  Fin.foldl n (fun m i => if Scalar.lt m (v.get i) then v.get i else m) (v.get ⟨0, h⟩)

namespace DenseMatrix

/-- The entries of a square matrix as a square grid; other matrices are refused. -/
def square (a : DenseMatrix S) : Except Fault (Grid S a.rows a.rows) :=
  if h : a.cols = a.rows then .ok (a.grid.castCols h) else .error (.notSquare a.shape)

/-- The singular values of a square matrix; one with an entry that is not finite has none. -/
def singularValues [SingularValues S] (a : DenseMatrix S) :
    Except Fault (Option (Vector S a.rows)) := do
  let g ← a.square
  return if a.isFinite then some (SingularValues.singularValues a.precision g) else none

/-- The **rank check**: whether a square matrix is singular to working precision. It is if it has an
entry that is not finite, if all singular values are zero, or if the smallest is at most the
threshold times the largest. The threshold is looked at last. -/
def isSingular [SingularValues S] (a : DenseMatrix S) (threshold : Threshold S) :
    Except Fault Bool := do
  match ← a.singularValues with
  | none => return true
  | some v =>
    let high := largest v a.rows_pos
    if Scalar.eq high Scalar.zero then return true
    let t ← threshold.value a.rows a.precision
    return Scalar.le (smallest v a.rows_pos) (Scalar.mul .double t high)

/-- The condition number of a square matrix. -/
def conditioning [SingularValues S] (a : DenseMatrix S) : Except Fault (Conditioning S) := do
  match ← a.singularValues with
  | none => return .unbounded
  | some v =>
    let low := smallest v a.rows_pos
    if Scalar.eq low Scalar.zero then return .unbounded
    return .ratio (Scalar.div a.precision (largest v a.rows_pos) low)

end DenseMatrix

end NewtonRaphson
