import NewtonRaphson.DenseMatrix.Access
import NewtonRaphson.DenseMatrix.Printer
import NewtonRaphson.Iteration
import NewtonRaphson.SingularValues.Jacobi

/-! # A bowl and its lowest point

The function `x² + y² + 2x + 8y` has its minimum at `(-1, -4)`. Its Hessian is constant, so one step
from anywhere leads there. The demonstration steps from `(-3, -2)` while the gradient is longer than
a thousandth, and tells where it went. -/

namespace NewtonRaphson

namespace Demo

variable {E : Type}

/-- A column vector of two coordinates in the precision of the settings. -/
def pair (x y : Float) : Action Float E Ref := do
  let p := (← Action.look).settings.precision
  Action.add (← DenseMatrix.column p [x, y])

/-- The gradient of the bowl: twice each coordinate plus 2 and plus 8. -/
def gradient : Evaluator Float E
  | .plain _ => Action.fail .badKind
  | .matrix r => do
    let m ← Action.read r
    let x ← m.getEntry (.single (.int 0))
    let y ← m.getEntry (.single (.int 1))
    return .matrix (← pair (2.0 * x + 2.0) (2.0 * y + 8.0))

/-- The Hessian of the bowl: twice the identity. -/
def hessian : Evaluator Float E := fun _ => do
  let p := (← Action.look).settings.precision
  return .matrix (← Action.add (← DenseMatrix.ofList p 2 2 [2.0, 0.0, 0.0, 2.0]))

/-- The length of the gradient at which the search ends. -/
def tolerance : Float := 0.001

/-- A line that tells where a point is and how long the gradient is there. -/
def line (x : Value) : Action Float E String := do
  let point ← Iteration.copyOf x
  let norm ← Iteration.gradientNorm gradient x
  return s!"Parameters: {point.transpose.compact} Error: {Numeral.fixed 3 norm}"

/-- The **demonstration**: what it prints. One step suffices, so a few units of fuel do. -/
def transcript : Action Float E String := do
  let r ← pair (-3.0) (-2.0)
  let point := Value.matrix r
  let descent ← Iteration.descend gradient hessian tolerance (line point) point 100 .success
  let m ← Action.read r
  let x ← m.getEntry (.single (.int 0))
  let y ← m.getEntry (.single (.int 1))
  let last := s!"Minimum found at ({Numeral.fixed 3 x}, {Numeral.fixed 3 y})"
  let lines := (descent.map (·.2)).getD [] ++ [last]
  return String.join (lines.map (· ++ "\n"))

end Demo

end NewtonRaphson
