import NewtonRaphson.Solve
import NewtonRaphson.World

/-! # The Newton-Raphson step

One step moves a point `x` by the solution of `H · dx = -g`, where `g` and `H` are the gradient and
the Hessian that the caller's evaluators give at `x`. The point is overwritten only after the new
one is known to be finite; in every other case it is left alone. Each step that returns a status
writes one record. -/

namespace NewtonRaphson

/-- How a step ended. -/
inductive Status where
  /-- The point was moved. -/
  | success
  /-- The linear system has no trustworthy solution. -/
  | singularHessian
  /-- A derivative or the new point is not finite. -/
  | numericalError
  deriving DecidableEq

/-- The word for a status. -/
def Status.name : Status → String
  | success => "success"
  | singularHessian => "singular_hessian"
  | numericalError => "numerical_error"

/-- A function of the caller that gives a derivative at a point. -/
abbrev Evaluator (S E : Type) := Value → Action S E Value

/-- What a step comes to, given point, gradient and Hessian. -/
inductive StepOutcome (S : Type) where
  /-- The gradient or the Hessian is not finite. -/
  | nonFinite
  /-- The system has no trustworthy solution. -/
  | singular (cause : Fault)
  /-- The new point is not finite. -/
  | overflow
  /-- The new point, and the way to it. -/
  | moved (point way : DenseMatrix S)

namespace Newton

variable {S E : Type} [SingularValues S]

/-- The outcome of a step at a point with a given gradient and Hessian, whose shapes are checked
first. A system without trustworthy solution is an outcome, any other refusal is a fault. -/
def outcome (factor : S) (x g h : DenseMatrix S) : Except Fault (StepOutcome S) :=
  if g.shape ≠ (x.rows, 1) then .error (.answerShape .gradient g.shape (x.rows, 1))
  else if h.shape ≠ (x.rows, x.rows) then .error (.answerShape .hessian h.shape (x.rows, x.rows))
  else if !(g.isFinite && h.isFinite) then .ok .nonFinite
  else
    match solve (.standard factor) h g.neg with
    | .error cause => if cause.isSingular then .ok (.singular cause) else .error cause
    | .ok way =>
      match x.add way with
      | .error cause => .error cause
      | .ok point => .ok (if point.isFinite then .moved point way else .overflow)

/-- The matrix that an evaluator answers with; a plain answer is refused. -/
def evaluate (derivative : Derivative) (f : Evaluator S E) (x : Value) : Action S E Ref := do
  match ← f x with
  | .matrix r => return r
  | .plain d => Action.fail (.answerKind derivative d.kindName)

/-- Carries out an outcome at the point of a reference: overwrites it if it is to move, and writes
the record of the step. -/
def conclude (r : Ref) (x : DenseMatrix S) : StepOutcome S → Action S E Status
  | .nonFinite => do
    Action.record Journal.stepLogger Level.warning (.nonFiniteDerivative x.entries)
    return .numericalError
  | .singular cause => do
    Action.record Journal.stepLogger Level.warning (.singularHessian cause)
    return .singularHessian
  | .overflow => do
    Action.record Journal.stepLogger Level.warning .overflow
    return .numericalError
  | .moved point way => do
    Action.write r point
    Action.record Journal.stepLogger Level.debug (.step way.norm point.entries)
    return .success

/-- One **Newton-Raphson step** on the point `x`, with evaluators for gradient and Hessian, each of
which is called once. -/
def step (df ddf : Evaluator S E) : Value → Action S E Status
  | .plain d => Action.fail (.pointKind d.kindName)
  | .matrix r => do
    let start ← Action.read r
    if !start.isVector then Action.fail (.pointShape start.shape)
    let g ← evaluate .gradient df (.matrix r)
    let h ← evaluate .hessian ddf (.matrix r)
    let w ← Action.look
    let x := w.store.get r
    let result ← outcome w.settings.factor x (w.store.get g) (w.store.get h)
    conclude r x result

end Newton

end NewtonRaphson
