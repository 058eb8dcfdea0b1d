import NewtonRaphson.DenseMatrix.Reading
import NewtonRaphson.Differences
import NewtonRaphson.Expression
import NewtonRaphson.Iteration
import NewtonRaphson.Operand
import NewtonRaphson.Settings
import NewtonRaphson.SingularValues.Jacobi

/-! # Recipes

Functions of the caller given as data: evaluators of derivatives, objectives and callbacks. The
caller's own state holds the named matrices, how often each function was called, and what a callback
saw. -/

namespace NewtonRaphson

/-- What a callback saw: the number of steps, the point, and the status. -/
structure Sighting where
  /-- The number of steps. -/
  steps : Nat
  /-- The point, where it is a matrix. -/
  point : Option (DenseMatrix Float)
  /-- The status of the last step. -/
  status : Status

/-- The state of a **caller**. -/
structure Caller where
  /-- The names of matrices, the latest first. -/
  registers : List (String × Ref)
  /-- How often the function at each place was called. -/
  calls : List (List Nat × Nat)
  /-- What the callback saw, the first first. -/
  sightings : List Sighting

namespace Caller

/-- The caller before anything is done. -/
def initial : Caller := ⟨[], [], []⟩

/-- The reference a name stands for. -/
def lookup (c : Caller) (name : String) : Except Fault Ref :=
  match c.registers.lookup name with
  | some r => .ok r
  | none => .error .badPosition

/-- Lets a name stand for a reference. -/
def bind (c : Caller) (name : String) (r : Ref) : Caller :=
  { c with registers := (name, r) :: c.registers.filter (·.1 != name) }

/-- How often the function at a place was called. -/
def callsOf (c : Caller) (place : List Nat) : Nat := (c.calls.lookup place).getD 0

/-- Counts a call of the function at a place. -/
def countCall (c : Caller) (place : List Nat) : Caller :=
  { c with calls := (place, c.callsOf place + 1) :: c.calls.filter (·.1 != place) }

/-- Forgets calls and sightings. -/
def reset (c : Caller) : Caller := { c with calls := [], sightings := [] }

end Caller

/-- An action of a session. -/
abbrev SessionAction := Action Float Caller

/-- The reference a name stands for. -/
def refOf (name : String) : SessionAction Ref := do (← Action.look).caller.lookup name

/-- The matrix a name stands for. -/
def matrixOf (name : String) : SessionAction (DenseMatrix Float) := do Action.read (← refOf name)

/-- Counts a call of the function at a place, and tells how many there were before. -/
def countCall (place : List Nat) : SessionAction Nat := fun w =>
  (.ok (w.caller.callsOf place), { w with caller := w.caller.countCall place })

/-! ### Widths of differences -/

/-- The width of differences that a datum is: a number above zero, with exact squares of an
integer. -/
def Width.ofDatum (d : Datum) : Except Fault (Width Float) :=
  match d with
  | .real x => Width.ofScalar x
  | d =>
    match d.toWhole? with
    | none => .error .badKind
    | some n =>
      if n ≤ 0 then .error .widthSign
      else .ok {
        offset := realOfInt n
        doubled := (2.0 * ·) <$> realOfInt n
        squared := realOfInt (n * n)
        fourSquared := realOfInt (4 * (n * n)) }

/-- The width of gradients where none is given. -/
def Width.ofGradient : Datum := .real 1e-6

/-- The width of Hessians where none is given. -/
def Width.ofHessian : Datum := .real 1e-4

/-! ### Evaluators -/

/-- A **recipe** of an evaluator. -/
inductive Recipe where
  /-- The column vector of expressions. -/
  | vector (entries : List Expression) (precision : PrecisionChoice)
  /-- The matrix with rows of expressions. -/
  | rows (entries : List (List Expression)) (precision : PrecisionChoice)
  /-- A matrix times the point, less a vector. -/
  | affine (factor offset : String)
  /-- A named matrix itself. -/
  | register (name : String)
  /-- The point itself. -/
  | point
  /-- The gradient of an expression by differences. -/
  | gradient (objective : Expression) (width : Datum)
  /-- The Hessian of an expression by differences. -/
  | hessian (objective : Expression) (width : Datum)
  /-- A plain value. -/
  | plain (d : Datum)
  /-- A fault of the caller's own. -/
  | abandon
  /-- Recipes for one call after the other; the last one serves all later calls. -/
  | sequence (recipes : List Recipe)

namespace Recipe

mutual

/-- Checks the widths in a recipe, which happens before anything is evaluated. -/
def check : Recipe → Except Fault Unit
  | gradient _ width | hessian _ width => do let _ ← Width.ofDatum width
  | sequence recipes => checkAll recipes
  | _ => .ok ()

/-- Checks the widths in several recipes. -/
def checkAll : List Recipe → Except Fault Unit
  | [] => .ok ()
  | r :: rest => do
    r.check
    checkAll rest

end

/-- The coordinates of a value. -/
def coordinatesOf (x : Value) : SessionAction (Key → Except Fault Float) :=
  match x with
  | .matrix r => return (← Action.read r).getEntry
  | .plain d => return d.coordinate

/-- The objective of an expression; calls count at a place. -/
def objectiveOf (place : List Nat) (e : Expression) : Objective Float Caller := fun r => do
  let _ ← countCall place
  e.eval (← coordinatesOf (.matrix r))

/-- An operand that is a value. -/
def operandOf : Value → SessionAction Operand
  | .matrix r => return .matrix (← Action.read r)
  | .plain d => return .plain d

mutual

/-- The evaluator that a recipe describes. Calls count at a place, those of a sequence's parts below
it. -/
def evaluator (recipe : Recipe) (place : List Nat) (x : Value) : SessionAction Value := do
  let earlier ← countCall place
  match recipe with
  | vector entries choice =>
    let values ← Expression.evalAll (← coordinatesOf x) entries
    let p ← Action.resolve choice
    return .matrix (← Action.add (← DenseMatrix.column p values))
  | rows entries choice =>
    let coordinates ← coordinatesOf x
    let values ← Expression.evalTable coordinates entries
    let p ← Action.resolve choice
    let data := Datum.list (values.map fun row => .list (row.map .real))
    return .matrix (← Action.add (← DenseMatrix.ofDatum p data))
  | affine factor offset =>
    let a ← matrixOf factor
    let product ← Operator.multiply.apply (.matrix a) (← operandOf x)
    let result ← product.sub (← matrixOf offset)
    return .matrix (← Action.add result)
  | register name => return .matrix (← refOf name)
  | point => return x
  | gradient objective width =>
    let f := objectiveOf (place ++ [0]) objective
    return .matrix (← Action.add (← Differences.gradient f (Width.ofDatum width) x))
  | hessian objective width =>
    let f := objectiveOf (place ++ [0]) objective
    return .matrix (← Action.add (← Differences.hessian f (Width.ofDatum width) x))
  | plain d => return .plain d
  | abandon => Action.fail .abandoned
  | sequence recipes => evaluatorAt recipes place 0 earlier x

/-- The evaluator of the recipe number `skip` in a list, or of the last one. -/
def evaluatorAt (recipes : List Recipe) (place : List Nat) (index skip : Nat) (x : Value) :
    SessionAction Value :=
  match recipes, skip with
  | [], _ => Action.fail .badPosition
  | [r], _ => evaluator r (place ++ [index]) x
  | r :: _, 0 => evaluator r (place ++ [index]) x
  | _ :: rest, skip + 1 => evaluatorAt rest place (index + 1) skip x

end

end Recipe

/-! ### Callbacks -/

/-- What a callback does besides recording what it sees. -/
structure CallbackPlan where
  /-- The step at which it gives up. -/
  abandonAt : Option Int
  /-- The step at which it overwrites an entry of the point. -/
  overwriteAt : Option Int
  /-- The entry it overwrites. -/
  key : Key
  /-- What it overwrites the entry with. -/
  value : Datum

/-- The callback of a plan. -/
def CallbackPlan.callback (plan : CallbackPlan) : Callback Float Caller := fun steps x status => do
  let point ← match x with
    | .matrix r => some <$> Action.read r
    | .plain _ => pure none
  Action.onCaller fun c => { c with sightings := c.sightings ++ [⟨steps, point, status⟩] }
  if plan.abandonAt = some (steps : Int) then Action.fail .abandoned
  if plan.overwriteAt = some (steps : Int) then
    match x with
    | .matrix r => Action.write r (← (← Action.read r).setEntry plan.key plan.value)
    | .plain _ => Action.fail .badKind

end NewtonRaphson
