import NewtonRaphson.Session.Recipe

/-! # Commands

What a session can be told to do with named matrices, settings and loggers. -/

namespace NewtonRaphson

/-- One side of an operator by name or by value. -/
inductive Source where
  /-- The matrix of a name. -/
  | register (name : String)
  /-- A plain value. -/
  | plain (d : Datum)

/-- What an iteration is told to do. -/
structure IterationPlan where
  /-- The tolerance on the norm of the gradient. -/
  tolerance : Datum
  /-- The greatest number of steps, if there is one. -/
  stepBound : Datum
  /-- Whether the point after each step is kept. -/
  keepHistory : Bool
  /-- The callback, if there is one. -/
  callback : Option CallbackPlan

/-- A **command** of a session. A command with a target lets that name stand for its result. -/
inductive Command where
  /-- A matrix of zeros. -/
  | zeros (target : Option String) (rows cols : Datum) (precision : PrecisionChoice)
  /-- An identity matrix. -/
  | identity (target : Option String) (size : Datum) (precision : PrecisionChoice)
  /-- A matrix of nested lists. -/
  | ofData (target : Option String) (data : Datum) (precision : PrecisionChoice)
  /-- A column vector of the parts of a datum. -/
  | vector (target : Option String) (data : Datum) (precision : PrecisionChoice)
  /-- A column vector of the entries that single indices give. -/
  | vectorOf (target : Option String) (source : String) (precision : PrecisionChoice)
  /-- Shows a matrix. -/
  | display (source : String)
  /-- A copy. -/
  | copy (target : Option String) (source : String)
  /-- A copy with all signs changed. -/
  | negate (target : Option String) (source : String)
  /-- A copy with rows and columns exchanged. -/
  | transpose (target : Option String) (source : String)
  /-- A further name for the same matrix. -/
  | alias (target : Option String) (source : String)
  /-- The result of an operator. -/
  | combine (operator : Operator) (target : Option String) (left right : Source)
  /-- An operator that changes the matrix of a name in place, or the name. -/
  | update (operator : Operator) (target : String) (right : Source)
  /-- The entry of a key. -/
  | getEntry (source : String) (key : Key)
  /-- Overwrites the entry of a key. -/
  | setEntry (target : String) (key : Key) (value : Datum)
  /-- The entries that single indices give. -/
  | walk (source : String)
  /-- The shape, the precision, and whether all entries are finite. -/
  | describe (source : String)
  /-- The short text of a matrix. -/
  | compactText (source : String)
  /-- The long text of a matrix. -/
  | fullText (source : String)
  /-- A hash, which matrices do not have because they can change. -/
  | hash (source : String)
  /-- The Euclidean norm. -/
  | norm (source : String)
  /-- Whether two operands are equal. -/
  | equal (left right : Source)
  /-- Whether two operands are close. -/
  | close (left : String) (right : Source) (atol rtol : Datum)
  /-- Overwrites a matrix with another one. -/
  | assign (target : String) (right : Source)
  /-- The solution of a linear system. -/
  | solve (target : Option String) (matrix side : String) (threshold : Option Datum)
  /-- The rank check. -/
  | isSingular (source : String) (threshold : Option Datum)
  /-- The condition number. -/
  | conditioning (source : String)
  /-- The threshold that the settings give a matrix of some size. -/
  | standardThreshold (size : Datum) (precision : PrecisionChoice)
  /-- Sets the precision of matrices built from now on. -/
  | setPrecision (request : PrecisionRequest)
  /-- The precision of the settings. -/
  | getPrecision
  /-- Commands in a precision that is taken back afterwards. -/
  | within (request : PrecisionRequest) (body : List Command)
  /-- Leaves the innermost block of commands. -/
  | leave
  /-- Sets the singularity factor. -/
  | setFactor (value : Datum)
  /-- The singularity factor. -/
  | getFactor
  /-- The settings of a fresh start with a precision from the environment. -/
  | restart (request : PrecisionRequest)
  /-- One Newton-Raphson step. -/
  | step (point : Source) (gradient hessian : Recipe)
  /-- An iteration. -/
  | iterate (point : Source) (gradient hessian : Recipe) (plan : IterationPlan)
  /-- A gradient by differences. -/
  | gradient (target : Option String) (point : String) (objective : Expression) (width : Datum)
  /-- A Hessian by differences. -/
  | hessian (target : Option String) (point : String) (objective : Expression) (width : Datum)
  /-- Whether a number is within a tolerance. -/
  | withinTolerance (norm tolerance : Datum)
  /-- Runs the demonstration. -/
  | demo
  /-- Asks for a logger. -/
  | requestLogger (name : Option String)
  /-- Sets the level of all loggers. -/
  | setLevel (level : Datum)
  /-- Replaces level, template and stream of all loggers. -/
  | configure (level : Datum) (template stream : Option String)
  /-- Hands a text to a logger. -/
  | emit (name : Option String) (level : Int) (text : String)

/-- What a search saw besides its result: how often each evaluator was called, and the callback's
sightings. -/
structure SearchTrace where
  /-- The calls of the gradient. -/
  gradientCalls : Nat
  /-- The calls of the Hessian. -/
  hessianCalls : Nat
  /-- What the callback saw, if there was one. -/
  sightings : Option (List Sighting)

/-- The **outcome** of a command. -/
inductive Outcome where
  /-- Nothing to tell. -/
  | done
  /-- A matrix. -/
  | matrix (m : DenseMatrix Float)
  /-- A number. -/
  | number (x : Float)
  /-- Several numbers. -/
  | numbers (xs : List Float)
  /-- A truth value. -/
  | truth (b : Bool)
  /-- A text. -/
  | text (s : String)
  /-- A matrix of which the features are told. -/
  | features (m : DenseMatrix Float)
  /-- Whether two operands are equal. -/
  | equality (b : Bool)
  /-- A precision. -/
  | precision (p : Precision)
  /-- The outcomes inside a block with what was written during each, whether the block was left, and
  the precision after it. -/
  | block (body : List (Outcome × List (Entry Float))) (left : Bool) (p : Precision)
  /-- The settings. -/
  | settings (p : Precision) (factor : Float)
  /-- The result of a step. -/
  | stepped (status : Status) (x : DenseMatrix Float) (trace : SearchTrace)
  /-- The result of an iteration from the point `start`. -/
  | iterated (run : Run Float) (start : Value) (x : Option (DenseMatrix Float))
      (trace : SearchTrace)
  /-- A matrix of differences and the number of values it took. -/
  | differences (m : DenseMatrix Float) (calls : Nat)
  /-- What the demonstration prints. -/
  | transcript (s : String)
  /-- A logger and the names of all that were set up. -/
  | logger (l : Logger) (known : List String)
  /-- The levels of all loggers that were set up. -/
  | levels (levels : List (String × Int))
  /-- A fault. -/
  | refused (cause : Fault)
  /-- A fault of a step or an iteration, with the point it left. -/
  | searchRefused (cause : Fault) (x : Option (DenseMatrix Float)) (trace : SearchTrace)
  /-- An iteration that did not end. -/
  | unfinished

end NewtonRaphson
