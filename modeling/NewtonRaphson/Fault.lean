import NewtonRaphson.Datum

/-! # Faults

Why an operation is refused. A fault is a cause with the values that matter; its kind and its
message are functions of it. Faults of a plain value that is no number carry no message. -/

namespace NewtonRaphson

/-- The numbers of rows and columns. -/
abbrev Shape := Nat × Nat

/-- A shape as messages show it. -/
def Shape.describe (s : Shape) : String := s!"({s.1}, {s.2})"

/-- The axis an index runs along. -/
inductive Axis where
  | row
  | column
  deriving DecidableEq

/-- The name of an axis. -/
def Axis.name : Axis → String
  | row => "row"
  | column => "column"

/-- One of the two dimensions a matrix is created with. -/
inductive Dimension where
  | rows
  | cols
  deriving DecidableEq

/-- The name of a dimension. -/
def Dimension.name : Dimension → String
  | rows => "rows"
  | cols => "cols"

/-- An operation on two matrices that must agree in precision. -/
inductive Operation where
  | addition
  | subtraction
  | product
  | assignment
  | solving
  deriving DecidableEq

/-- The name of an operation. -/
def Operation.name : Operation → String
  | addition => "addition"
  | subtraction => "subtraction"
  | product => "matrix product"
  | assignment => "assignment"
  | solving => "solve"

/-- Which derivative an evaluator gives. -/
inductive Derivative where
  | gradient
  | hessian
  deriving DecidableEq

/-- The name of a derivative. -/
def Derivative.name : Derivative → String
  | gradient => "Gradient"
  | hessian => "Hessian"

/-- A **fault**: the cause for which an operation was refused. -/
inductive Fault where
  /-- An index along an axis is not an integer. -/
  | indexKind (axis : Axis) (given : Datum)
  /-- An index along an axis does not lie in the matrix. -/
  | indexRange (axis : Axis) (given : Int) (bound : Nat)
  /-- A tuple of indices does not consist of two. -/
  | indexCount (given : List Datum)
  /-- A matrix with several columns was given a single index. -/
  | singleIndex (shape : Shape)
  /-- A dimension is not an integer. -/
  | dimensionKind (dimension : Dimension) (given : Datum)
  /-- A dimension is zero or negative. -/
  | dimensionSign (dimension : Dimension) (given : Int)
  /-- Data are nested to a depth other than one or two. -/
  | depth (given : Nat)
  /-- Data have no rows or no columns. -/
  | emptyDimension
  /-- Two operands have different precisions. -/
  | mixedPrecision (operation : Operation) (left right : Precision)
  /-- Two operands have different shapes. -/
  | shapeMismatch (operation : Operation) (left right : Shape)
  /-- The columns of the left factor are not as many as the rows of the right one. -/
  | innerDimensions (left right : Shape)
  /-- A plain value stands where a matrix is assigned from. -/
  | assignedKind (kind : String)
  /-- The coefficient matrix of a system is not square. -/
  | notSquare (shape : Shape)
  /-- The right-hand side of a system has a wrong number of rows. -/
  | rightHandSide (rows expected : Nat)
  /-- The rank check rejects a matrix. -/
  | rankDeficient (shape : Shape)
  /-- Elimination meets a zero pivot. -/
  | zeroPivot
  /-- The solution of a system overflows. -/
  | infiniteSolution
  /-- A text names no precision. -/
  | precisionName (given : String)
  /-- A numeric type is not one of the two precisions. -/
  | numericType (given : String)
  /-- A singularity factor is not positive. -/
  | factorSign
  /-- A tolerance is negative. -/
  | toleranceSign
  /-- A bound on the number of steps is negative. -/
  | stepBoundSign
  /-- The width of a difference is not positive. -/
  | widthSign
  /-- A plain value stands where the point of a step is expected. -/
  | pointKind (kind : String)
  /-- A point is not a column vector. -/
  | pointShape (shape : Shape)
  /-- An evaluator answers with a plain value. -/
  | answerKind (derivative : Derivative) (kind : String)
  /-- A derivative does not fit the point. -/
  | answerShape (derivative : Derivative) (given expected : Shape)
  /-- A text names no logging level. -/
  | levelName (given : String)
  /-- A plain value of a suitable kind has no numeric value. -/
  | badValue
  /-- A plain value is of an unsuitable kind. -/
  | badKind
  /-- A position does not exist. -/
  | badPosition
  /-- A number is beyond the range of doubles. -/
  | tooLarge
  /-- A number is divided by zero. -/
  | divisionByZero
  /-- A plain value is asked for what only a matrix has. -/
  | noSuchAttribute
  /-- The caller's own function gave up. -/
  | abandoned

namespace Fault

/-- The kinds that callers distinguish faults by. -/
inductive Kind where
  /-- A value is out of its domain. -/
  | value
  /-- A value is of the wrong kind. -/
  | type
  /-- An index is wrong. -/
  | index
  /-- A number is out of range. -/
  | overflow
  /-- A division by zero. -/
  | zeroDivision
  /-- A missing attribute. -/
  | attribute
  /-- A linear system has no trustworthy solution. -/
  | singular
  /-- A fault of the caller's own. -/
  | other
  deriving DecidableEq

/-- The kind of a fault. -/
def kind : Fault → Kind
  | indexKind .. | indexRange .. | indexCount .. | singleIndex .. | badPosition => .index
  | dimensionKind .. | mixedPrecision .. | assignedKind .. | pointKind .. | answerKind ..
  | badKind => .type
  | dimensionSign .. | depth .. | emptyDimension | shapeMismatch .. | innerDimensions ..
  | notSquare .. | rightHandSide .. | precisionName .. | numericType .. | factorSign
  | toleranceSign | stepBoundSign | widthSign | pointShape .. | answerShape .. | levelName ..
  | badValue => .value
  | rankDeficient .. | zeroPivot | infiniteSolution => .singular
  | tooLarge => .overflow
  | divisionByZero => .zeroDivision
  | noSuchAttribute => .attribute
  | abandoned => .other

/-- The message of a fault; those found while a plain value is converted have none. -/
def message? : Fault → Option String
  | indexKind axis d => some s!"{axis.name} index must be an integer, got {d.describe}"
  | indexRange axis i bound => some s!"{axis.name} index {i} out of range [0, {bound})"
  | indexCount ds => some s!"Expected (row, col) index, got {Datum.describeTuple ds}"
  | singleIndex s =>
    some s!"Single index access requires a column vector, matrix is {s.describe}"
  | dimensionKind dim d => some s!"{dim.name} must be an integer, got {d.describe}"
  | dimensionSign dim n => some s!"{dim.name} must be positive, got {n}"
  | depth n => some s!"Expected 1-D or 2-D data, got {n}-D"
  | emptyDimension => some "Matrix dimensions must be positive"
  | mixedPrecision op p q => some s!"Mixed precision in {op.name}: {p.name} and {q.name}"
  | shapeMismatch op s t =>
    some s!"Shape mismatch in {op.name}: {s.describe} and {t.describe}"
  | innerDimensions s t => some s!"Inner dimensions do not agree: {s.describe} @ {t.describe}"
  | assignedKind k => some s!"Expected a Matrix, got {k}"
  | notSquare s => some s!"Coefficient matrix must be square, got {s.describe}"
  | rightHandSide rows n => some s!"Right-hand side has {rows} rows, expected {n}"
  | rankDeficient s => some s!"Matrix of shape {s.describe} is singular to working precision"
  | zeroPivot => some "Singular matrix"
  | infiniteSolution => some "Solution contains non-finite values"
  | precisionName s =>
    some (s!"Unsupported precision: {quoted s}. Supported: " ++
      Datum.describe (.list (Precision.names.map .text)))
  | numericType s => some s!"Unsupported scalar dtype: {s}"
  | factorSign => some "factor must be positive"
  | toleranceSign => some "tol must be non-negative"
  | stepBoundSign => some "maxiter must be non-negative"
  | widthSign => some "eps must be positive"
  | pointKind k => some s!"x must be a Matrix, got {k}"
  | pointShape s => some s!"x must be a column vector, got shape {s.describe}"
  | answerKind r k => some s!"{r.name} evaluator must return a Matrix, got {k}"
  | answerShape r s t => some s!"{r.name} has shape {s.describe}, expected {t.describe}"
  | levelName s => some s!"Unknown logging level: {quoted s}"
  | badValue | badKind | badPosition | tooLarge | divisionByZero | noSuchAttribute
  | abandoned => none

/-- Whether a fault says that a linear system has no trustworthy solution. -/
def isSingular (f : Fault) : Bool := f.kind == .singular

end Fault

end NewtonRaphson
