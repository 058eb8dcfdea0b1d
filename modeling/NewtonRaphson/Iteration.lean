import NewtonRaphson.Newton

/-! # Iteration

Steps are repeated while the last one succeeded and the norm of the gradient exceeds a tolerance. An
iteration without a bound on its steps need not end, so it runs on fuel: a unit for each step. -/

namespace NewtonRaphson

variable {S E : Type}

/-- A function of the caller that is told the number of steps, the point and the status after each
step. -/
abbrev Callback (S E : Type) := Nat → Value → Status → Action S E Unit

/-- What ends an iteration, and whether it keeps the points on its way. -/
structure Limits (S : Type) where
  /-- The norm of the gradient that is small enough. -/
  tolerance : S
  /-- The greatest number of steps, if there is one. -/
  stepBound : Option Int
  /-- Whether the point after each step is kept. -/
  keepHistory : Bool

/-- Where an iteration stands between two steps. -/
structure Progress (S : Type) where
  /-- The number of steps taken. -/
  steps : Nat
  /-- The status of the last step, `success` before the first. -/
  status : Status
  /-- The norm of the gradient evaluated last. -/
  gradientNorm : S
  /-- The points after each step, the first one first, if they are kept. -/
  history : List (DenseMatrix S)

/-- The result of an iteration. -/
structure Run (S : Type) where
  /-- The caller's point. -/
  point : Value
  /-- Where the iteration ended. -/
  final : Progress S
  /-- Whether the last status is a success and the norm of the gradient within the tolerance. -/
  converged : Bool
  /-- Why the iteration ended. -/
  reason : StopReason

/-- Whether a norm of a gradient is within a tolerance. -/
def withinTolerance [Scalar S] (norm tolerance : S) : Bool := Scalar.le norm tolerance

namespace Iteration

/-- The norm of the gradient at a point; a plain value has no norm. -/
def gradientNorm [Scalar S] (df : Evaluator S E) (x : Value) : Action S E S := do
  match ← df x with
  | .matrix r => return (← Action.read r).norm
  | .plain _ => Action.fail .noSuchAttribute

/-- Whether an iteration has converged where it stands. -/
def hasConverged [Scalar S] (limits : Limits S) (p : Progress S) : Bool :=
  p.status == .success && withinTolerance p.gradientNorm limits.tolerance

/-- Whether the bound on the steps is reached. -/
def atBound (limits : Limits S) (p : Progress S) : Bool :=
  limits.stepBound.any (· ≤ (p.steps : Int))

/-- Whether an iteration ends where it stands. -/
def isOver [Scalar S] (limits : Limits S) (p : Progress S) : Bool :=
  p.status != .success || hasConverged limits p || atBound limits p

/-- Why an iteration ends where it stands. -/
def reason [Scalar S] (limits : Limits S) (p : Progress S) : StopReason :=
  if hasConverged limits p then .converged
  else match p.status with
    | .singularHessian => .singularHessian
    | .numericalError => .nonFinite
    | .success => .stepBound

/-- A copy of the point. -/
def copyOf [Scalar S] : Value → Action S E (DenseMatrix S)
  | .matrix r => Action.read r
  | .plain _ => Action.fail .noSuchAttribute

/-- The **plain loop**: steps are taken while the last one succeeded and the norm of the gradient,
taken anew each time, is above the tolerance. After each step an observation is made. The result is
the last status and the observations; nothing if the fuel does not suffice. -/
def descend [SingularValues S] {α : Type} (df ddf : Evaluator S E) (tolerance : S)
    (observe : Action S E α) (x : Value) :
    Nat → Status → Action S E (Option (Status × List α))
  | fuel, status =>
    if status != .success then return some (status, [])
    else do
      let norm ← gradientNorm df x
      if Scalar.lt tolerance norm then
        match fuel with
        | 0 => return none
        | fuel + 1 => do
          let status ← Newton.step df ddf x
          let seen ← observe
          let rest ← descend df ddf tolerance observe x fuel status
          return rest.map fun (last, later) => (last, seen :: later)
      else return some (status, [])

/-- One more step: the step itself, a copy of the point, the callback, the gradient. -/
def advance [SingularValues S] (df ddf : Evaluator S E) (limits : Limits S)
    (callback : Option (Callback S E)) (x : Value) (p : Progress S) : Action S E (Progress S) := do
  let status ← Newton.step df ddf x
  let steps := p.steps + 1
  let kept ← if limits.keepHistory then (fun m => [m]) <$> copyOf x else pure []
  if let some tell := callback then tell steps x status
  let gradientNorm ← gradientNorm df x
  return { steps, status, gradientNorm, history := p.history ++ kept }

/-- Steps until the iteration is over; nothing if the fuel does not suffice. -/
def loop [SingularValues S] (df ddf : Evaluator S E) (limits : Limits S)
    (callback : Option (Callback S E)) (x : Value) :
    Nat → Progress S → Action S E (Option (Progress S))
  | fuel, p =>
    if isOver limits p then return some p
    else match fuel with
      | 0 => return none
      | fuel + 1 => do
        let p ← advance df ddf limits callback x p
        loop df ddf limits callback x fuel p

/-- An **iteration** from the point `x`, which is overwritten by every step that succeeds. The
tolerance and the bound are checked before anything is evaluated. Nothing is returned if the fuel
does not suffice. -/
def run [SingularValues S] (fuel : Nat) (df ddf : Evaluator S E) (limits : Limits S)
    (callback : Option (Callback S E)) (x : Value) : Action S E (Option (Run S)) := do
  if Scalar.lt limits.tolerance Scalar.zero then Action.fail .toleranceSign
  if limits.stepBound.any (· < 0) then Action.fail .stepBoundSign
  let start ← gradientNorm df x
  match ← loop df ddf limits callback x fuel ⟨0, .success, start, []⟩ with
  | none => return none
  | some final =>
    let reason := reason limits final
    Action.record Journal.iterationLogger Level.info (.stopped final.steps reason)
    return some ⟨x, final, hasConverged limits final, reason⟩

end Iteration

end NewtonRaphson
