import NewtonRaphson.DenseMatrix.Access

/-! # Expressions

Formulas in the coordinates of a point, with a value in doubles. Division by zero and arguments
outside a function's domain give infinities and undefined values, not faults. -/

namespace NewtonRaphson

/-- An operation with any number of operands, taken from left to right. -/
inductive FoldOperation where
  | sum
  | difference
  | product
  | quotient
  deriving DecidableEq

/-- The operation on two doubles. -/
def FoldOperation.apply : FoldOperation → Float → Float → Float
  | sum, x, y => x + y
  | difference, x, y => x - y
  | product, x, y => x * y
  | quotient, x, y => x / y

/-- A function of one double. -/
inductive RealFunction where
  | negate
  | absolute
  | exponential
  | logarithm
  | sine
  | cosine
  | arctangent
  | squareRoot
  deriving DecidableEq

/-- The value of a function. -/
def RealFunction.apply : RealFunction → Float → Float
  | negate, x => -x
  | absolute, x => x.abs
  | exponential, x => x.exp
  | logarithm, x => x.log
  | sine, x => x.sin
  | cosine, x => x.cos
  | arctangent, x => x.atan
  | squareRoot, x => x.sqrt

/-- An **expression** in the coordinates of a point. -/
inductive Expression where
  /-- A constant. -/
  | literal (value : Datum)
  /-- The coordinate that a key denotes. -/
  | coordinate (key : Key)
  /-- An operation on one or more expressions. -/
  | fold (operation : FoldOperation) (first : Expression) (rest : List Expression)
  /-- A function of an expression. -/
  | apply (function : RealFunction) (argument : Expression)

namespace Expression

mutual

/-- The value of an expression, given the coordinates. -/
def eval (coordinates : Key → Except Fault Float) : Expression → Except Fault Float
  | literal value => value.toFactor
  | coordinate key => coordinates key
  | fold operation first rest => do
    let x ← first.eval coordinates
    evalRest coordinates operation x rest
  | apply function argument => return function.apply (← argument.eval coordinates)

/-- The value of an operation whose operands so far come to `x`. -/
def evalRest (coordinates : Key → Except Fault Float) (operation : FoldOperation) (x : Float) :
    List Expression → Except Fault Float
  | [] => .ok x
  | e :: rest => do
    let y ← e.eval coordinates
    evalRest coordinates operation (operation.apply x y) rest

end

/-- The values of several expressions. -/
def evalAll (coordinates : Key → Except Fault Float) (es : List Expression) :
    Except Fault (List Float) := es.mapM (eval coordinates)

/-- The values of several rows of expressions. -/
def evalTable (coordinates : Key → Except Fault Float) (rows : List (List Expression)) :
    Except Fault (List (List Float)) := rows.mapM (evalAll coordinates)

end Expression

/-- The coordinates of a plain value in place of a point: the items of a list, counted from the end
if the index is negative. -/
def Datum.coordinate (d : Datum) (key : Key) : Except Fault Float :=
  match d, key with
  | .list items, .single index => do
    let some i := index.toWhole? | throw .badKind
    let position := if i < 0 then i + items.length else i
    if position < 0 then throw .badPosition
    match items[position.toNat]? with
    | some item => item.toFactor
    | none => throw .badPosition
  | _, _ => .error .badKind

end NewtonRaphson
