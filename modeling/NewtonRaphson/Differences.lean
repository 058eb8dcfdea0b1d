import NewtonRaphson.Newton

/-! # Finite differences

Gradient and Hessian of an objective from its values at points around a given one. The shifted
points and the quotients are computed in doubles; each point is rounded to the precision of the
given one and handed to the objective as a matrix of its own. -/

namespace NewtonRaphson

variable {S E : Type}

/-- A function of the caller that gives a number at a point. -/
abbrev Objective (S E : Type) := Ref → Action S E S

/-- The **width** of differences and the divisors that belong to it. Each is computed when it is
needed, and may be out of range. -/
structure Width (S : Type) where
  /-- The distance of neighbouring points. -/
  offset : Except Fault S
  /-- Twice the width. -/
  doubled : Except Fault S
  /-- The square of the width. -/
  squared : Except Fault S
  /-- Four times the square of the width. -/
  fourSquared : Except Fault S

/-- The width given by a number, which must not be negative or zero. Its square must not
overflow. -/
def Width.ofScalar [Scalar S] (x : S) : Except Fault (Width S) :=
  if Scalar.le x Scalar.zero then .error .widthSign
  else
    let square := Scalar.mul .double x x
    let squared :=
      if Scalar.isFinite x && !Scalar.isFinite square then .error .tooLarge else .ok square
    .ok {
      offset := .ok x
      doubled := .ok (Scalar.mul .double (Scalar.ofNat 2) x)
      squared
      fourSquared := squared.map (Scalar.mul .double (Scalar.ofNat 4)) }

namespace Differences

variable [Scalar S]

/-- A quotient in doubles; a zero divisor is refused. -/
def quotient (x y : S) : Except Fault S :=
  if Scalar.eq y Scalar.zero then .error .divisionByZero else .ok (Scalar.div .double x y)

/-- The coordinates of a column vector; another matrix is no point. -/
def coordinates (m : DenseMatrix S) : Except Fault (Vector S m.rows) :=
  if m.isVector then .ok (.ofFn fun i => m.grid.get i ⟨0, m.cols_pos⟩)
  else .error (.pointShape m.shape)

/-- A point moved along the coordinate `i` by `add` or `sub`. The other coordinates take part with
an offset of zero. -/
def shift {n : Nat} (move : Precision → S → S → S) (offset : S) (i : Fin n) (x : Vector S n) :
    Vector S n :=
  .ofFn fun j => move .double (x.get j) (if j = i then offset else Scalar.zero)

/-- The value of the objective at a point, which it gets as a new matrix. -/
def valueAt (f : Objective S E) (p : Precision) {n : Nat} (hn : 0 < n) (x : Vector S n) :
    Action S E S := do
  f (← Action.add (.ofFn p hn Nat.one_pos fun i _ => x.get i))

/-- The central difference along the coordinate `i`. -/
def partialDerivative (f : Objective S E) (width : Width S) (p : Precision) {n : Nat} (hn : 0 < n)
    (x : Vector S n) (i : Fin n) : Action S E S := do
  let offset ← width.offset
  let up ← valueAt f p hn (shift Scalar.add offset i x)
  let down ← valueAt f p hn (shift Scalar.sub offset i x)
  quotient (Scalar.sub .double up down) (← width.doubled)

/-- The second difference along the coordinate `i`, given the value at the point itself. -/
def secondDerivative (f : Objective S E) (width : Width S) (p : Precision) {n : Nat} (hn : 0 < n)
    (x : Vector S n) (centre : S) (i : Fin n) : Action S E S := do
  let offset ← width.offset
  let up ← valueAt f p hn (shift Scalar.add offset i x)
  let down ← valueAt f p hn (shift Scalar.sub offset i x)
  let twice := Scalar.mul .double (Scalar.ofNat 2) centre
  quotient (Scalar.add .double (Scalar.sub .double up twice) down) (← width.squared)

/-- The mixed second difference along two coordinates. -/
def mixedDerivative (f : Objective S E) (width : Width S) (p : Precision) {n : Nat} (hn : 0 < n)
    (x : Vector S n) (i j : Fin n) : Action S E S := do
  let offset ← width.offset
  let upper := shift Scalar.add offset i x
  let lower := shift Scalar.sub offset i x
  let pp ← valueAt f p hn (shift Scalar.add offset j upper)
  let pm ← valueAt f p hn (shift Scalar.sub offset j upper)
  let mp ← valueAt f p hn (shift Scalar.add offset j lower)
  let mm ← valueAt f p hn (shift Scalar.sub offset j lower)
  let difference := Scalar.add .double (Scalar.sub .double (Scalar.sub .double pp pm) mp) mm
  quotient difference (← width.fourSquared)

/-- The row `i` of a symmetric matrix of second differences from its diagonal entry on. -/
def upperRow (f : Objective S E) (width : Width S) (p : Precision) {n : Nat} (hn : 0 < n)
    (x : Vector S n) (centre : S) (i : Fin n) : Action S E (List S) := do
  let diagonal ← secondDerivative f width p hn x centre i
  let rest ← ((List.finRange n).filter (i < ·)).mapM (mixedDerivative f width p hn x i)
  return diagonal :: rest

/-- The entry in row `i` and column `j` of the symmetric matrix with given rows from the diagonal
on. -/
def mirrored (rows : List (List S)) (i j : Nat) : S :=
  ((rows.getD (min i j) []).getD (max i j - min i j) Scalar.zero)

/-- The matrix that a value is, for a function that looks at its shape. -/
def pointOf : Value → Action S E (DenseMatrix S)
  | .matrix r => Action.read r
  | .plain _ => Action.fail .noSuchAttribute

/-- The **gradient** by central differences: for each coordinate the value above and the value
below. -/
def gradient (f : Objective S E) (width : Except Fault (Width S)) (point : Value) :
    Action S E (DenseMatrix S) := do
  let width ← width
  let m ← pointOf point
  let x ← coordinates m
  let values ← (List.finRange m.rows).mapM (partialDerivative f width m.precision m.rows_pos x)
  return .ofFn m.precision m.rows_pos Nat.one_pos fun i _ => values.getD i Scalar.zero

/-- The **Hessian** by second differences: the value at the point, and for each coordinate the
values above and below it followed by the four values around it for each later coordinate. -/
def hessian (f : Objective S E) (width : Except Fault (Width S)) (point : Value) :
    Action S E (DenseMatrix S) := do
  let width ← width
  let m ← pointOf point
  let x ← coordinates m
  let centre ← valueAt f m.precision m.rows_pos x
  let rows ← (List.finRange m.rows).mapM (upperRow f width m.precision m.rows_pos x centre)
  return .ofFn m.precision m.rows_pos m.rows_pos fun i j => mirrored rows i j

/-- The evaluator of a gradient by differences. -/
def gradientEvaluator (f : Objective S E) (width : Width S) : Evaluator S E := fun x => do
  return .matrix (← Action.add (← gradient f (.ok width) x))

/-- The evaluator of a Hessian by differences. -/
def hessianEvaluator (f : Objective S E) (width : Width S) : Evaluator S E := fun x => do
  return .matrix (← Action.add (← hessian f (.ok width) x))

end Differences

end NewtonRaphson
