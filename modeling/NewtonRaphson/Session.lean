import NewtonRaphson.Demo
import NewtonRaphson.Session.Command

/-! # Sessions

The meaning of commands. Each is an action on the store, the settings, the journal and the names; a
refused command leaves what it had done up to the refusal and names nothing. -/

namespace NewtonRaphson

/-- The world of a session before its first command. -/
def World.initial : World Float Caller := ⟨.empty, .initial, .initial, .initial⟩

namespace Session

/-- The result of an action, a fault included. -/
def attempt {α : Type} (x : SessionAction α) : SessionAction (Except Fault α) := fun w =>
  let (result, w') := x w
  (.ok result, w')

/-- Lets a target, if there is one, stand for a reference. -/
def bindTarget (target : Option String) (r : Ref) : SessionAction Unit :=
  match target with
  | some name => Action.onCaller (·.bind name r)
  | none => return ()

/-- Adds a matrix, lets a target stand for it, and tells it. -/
def deliver (target : Option String) (m : DenseMatrix Float) : SessionAction Outcome := do
  bindTarget target (← Action.add m)
  return .matrix m

/-- The operand that a source is. -/
def operandOf : Source → SessionAction Operand
  | .register name => return .matrix (← matrixOf name)
  | .plain d => return .plain d

/-- The value that a source is. -/
def valueOf : Source → SessionAction Value
  | .register name => return .matrix (← refOf name)
  | .plain d => return .plain d

/-- The matrix that a value is, if it is one. -/
def matrixAt : Value → SessionAction (Option (DenseMatrix Float))
  | .matrix r => some <$> Action.read r
  | .plain _ => return none

/-- Overwrites the matrix of a name and tells what it holds then. -/
def overwrite (target : String)
    (f : DenseMatrix Float → Except Fault (DenseMatrix Float)) : SessionAction Outcome := do
  let r ← refOf target
  let m ← f (← Action.read r)
  Action.write r m
  return .matrix m

/-- The singularity factor of the settings. -/
def factor : SessionAction Float := return (← Action.look).settings.factor

/-- The precision of the settings. -/
def precision : SessionAction Precision := return (← Action.look).settings.precision

/-! ### Limits of an iteration -/

/-- The greatest double that is not above an integer which is not negative. -/
def doubleBelow (n : Int) : Float :=
  let x := Float.ofInt n
  if compareRealInt x n = some .gt then Float.ofBits (x.toBits - 1) else x

/-- The tolerance that a datum is. A double norm is at most an integer exactly if it is at most the
greatest double not above it. -/
def toleranceOf (d : Datum) : Except Fault Float := do
  if ← d.isBelow 0 then throw .toleranceSign
  match d.toWhole?, d with
  | some n, _ => return doubleBelow n
  | none, .real x => return x
  | none, _ => throw .badKind

/-- The bound on the steps that a datum is. A number of steps reaches a number exactly if it reaches
the least integer not below it; nothing reaches an undefined value or an infinity. -/
def stepBoundOf (d : Datum) : Except Fault (Option Int) :=
  match d with
  | .null => .ok none
  | d => do
    if ← d.isBelow 0 then throw .stepBoundSign
    match d.toWhole?, d with
    | some n, _ => return some n
    | none, .real x => return (Binary.ofFloat? x).map Binary.ceiling
    | none, _ => throw .badKind

/-- The limits that a plan sets. -/
def limitsOf (plan : IterationPlan) : Except Fault (Limits Float) := do
  let tolerance ← toleranceOf plan.tolerance
  let stepBound ← stepBoundOf plan.stepBound
  return ⟨tolerance, stepBound, plan.keepHistory⟩

/-! ### Searches -/

/-- The place where calls of the gradient are counted. -/
def gradientPlace : List Nat := [0]

/-- The place where calls of the Hessian are counted. -/
def hessianPlace : List Nat := [1]

/-- The place where calls of an objective are counted. -/
def objectivePlace : List Nat := [2]

/-- What was seen of a search. -/
def traceOf (hasCallback : Bool) : SessionAction SearchTrace := do
  let c := (← Action.look).caller
  return ⟨c.callsOf gradientPlace, c.callsOf hessianPlace,
    if hasCallback then some c.sightings else none⟩

/-- Carries out a search, and tells its result or its fault together with what was seen. -/
def search {α : Type} (point : Source) (hasCallback : Bool) (x : Value → SessionAction α)
    (tell : α → Value → Option (DenseMatrix Float) → SearchTrace → Outcome) :
    SessionAction Outcome := do
  Action.onCaller (·.reset)
  let start ← valueOf point
  let result ← attempt (x start)
  let m ← matrixAt start
  let trace ← traceOf hasCallback
  match result with
  | .ok a => return tell a start m trace
  | .error cause => return .searchRefused cause m trace

/-- The evaluators of two recipes, whose widths are checked first. -/
def evaluators (gradient hessian : Recipe) :
    Except Fault (Evaluator Float Caller × Evaluator Float Caller) := do
  gradient.check
  hessian.check
  return (gradient.evaluator gradientPlace, hessian.evaluator hessianPlace)

/-- A step as a command. -/
def step (point : Source) (gradient hessian : Recipe) : SessionAction Outcome :=
  search point false
    (fun x => do
      let (df, ddf) ← evaluators gradient hessian
      Newton.step df ddf x)
    fun status _ m trace =>
      match m with
      | some m => .stepped status m trace
      | none => .unfinished

/-- An iteration as a command. -/
def iterate (fuel : Nat) (point : Source) (gradient hessian : Recipe) (plan : IterationPlan) :
    SessionAction Outcome :=
  search point plan.callback.isSome
    (fun x => do
      let (df, ddf) ← evaluators gradient hessian
      let limits ← limitsOf plan
      Iteration.run fuel df ddf limits (plan.callback.map CallbackPlan.callback) x)
    fun run start m trace =>
      match run with
      | some run => .iterated run start m trace
      | none => .unfinished

/-- Differences as a command. -/
def differences (target : Option String) (point : String) (objective : Expression)
    (f : Objective Float Caller → Value → SessionAction (DenseMatrix Float)) :
    SessionAction Outcome := do
  Action.onCaller (·.reset)
  let r ← refOf point
  let m ← f (Recipe.objectiveOf objectivePlace objective) (.matrix r)
  bindTarget target (← Action.add m)
  return .differences m ((← Action.look).caller.callsOf objectivePlace)

/-! ### Commands -/

/-- The levels of the loggers that were set up. -/
def levels : SessionAction Outcome := return .levels (← Action.look).journal.levels

/-- Takes what was written since the last time. -/
def takeWritten : SessionAction (List (Entry Float)) := fun w =>
  (.ok w.journal.written, { w with journal.written := [] })

mutual

/-- The meaning of a command. The fuel is for the steps of an iteration. -/
def run (fuel : Nat) : Command → SessionAction Outcome
  | .zeros target rows cols choice => do
    let ⟨rows, hr⟩ ← DenseMatrix.positiveDimension .rows rows
    let ⟨cols, hc⟩ ← DenseMatrix.positiveDimension .cols cols
    deliver target (.zeros (← Action.resolve choice) rows cols hr hc)
  | .identity target size choice => do
    let ⟨n, hn⟩ ← DenseMatrix.positiveDimension .rows size
    deliver target (.identity (← Action.resolve choice) n hn)
  | .ofData target data choice => do
    let p ← Action.resolve choice
    deliver target (← DenseMatrix.ofDatum p data)
  | .vector target data choice => do
    let entries ← DenseMatrix.vectorEntries data
    deliver target (← DenseMatrix.column (← Action.resolve choice) entries)
  | .vectorOf target source choice => do
    let m ← matrixOf source
    deliver target (← DenseMatrix.column (← Action.resolve choice) m.walk)
  | .display source => return .matrix (← matrixOf source)
  | .copy target source => do deliver target (← matrixOf source)
  | .negate target source => do deliver target (← matrixOf source).neg
  | .transpose target source => do deliver target (← matrixOf source).transpose
  | .alias target source => do
    let r ← refOf source
    bindTarget target r
    return .matrix (← Action.read r)
  | .combine operator target left right => do
    let a ← operandOf left
    let b ← operandOf right
    deliver target (← operator.apply a b)
  | .update operator target right => do
    let r ← refOf target
    let b ← operandOf right
    let m ← operator.apply (.matrix (← Action.read r)) b
    if operator.overwrites then
      Action.write r m
      return .matrix m
    else deliver (some target) m
  | .getEntry source key => return .number (← (← matrixOf source).getEntry key)
  | .setEntry target key value => overwrite target (·.setEntry key value)
  | .walk source => return .numbers (← matrixOf source).walk
  | .describe source => return .features (← matrixOf source)
  | .compactText source => return .text (← matrixOf source).compact
  | .fullText source => return .text (← matrixOf source).describe
  | .hash source => do
    let _ ← refOf source
    Action.fail .badKind
  | .norm source => return .number (← matrixOf source).norm
  | .equal left right => return .equality ((← operandOf left).equal (← operandOf right))
  | .close left right atol rtol => do
    let a ← matrixOf left
    return .truth (← (← operandOf right).close a atol rtol)
  | .assign target right => do
    let b ← operandOf right
    overwrite target b.assignTo
  | .solve target matrix side threshold => do
    let a ← matrixOf matrix
    let b ← matrixOf side
    deliver target (← NewtonRaphson.solve (.ofDatum (← factor) threshold) a b)
  | .isSingular source threshold => do
    return .truth (← (← matrixOf source).isSingular (.ofDatum (← factor) threshold))
  | .conditioning source => do
    match ← (← matrixOf source).conditioning with
    | .unbounded => return .number Scalar.infinity
    | .ratio x => return .number x
  | .standardThreshold size choice => do
    let n ← size.toFactor
    let p ← Action.resolve choice
    return .number ((← factor) * n * Scalar.epsilon p)
  | .setPrecision request => do
    Action.setPrecision (← request.resolve)
    return .precision (← precision)
  | .getPrecision => return .precision (← precision)
  | .within request body => do
    let p ← request.resolve
    let (outcomes, left) ← Action.inPrecision p (runAll fuel body)
    return .block outcomes left (← precision)
  | .leave => Action.fail .abandoned
  | .setFactor value => do
    Action.setFactor (← value.toSingularityFactor)
    return .number (← factor)
  | .getFactor => return .number (← factor)
  | .restart request => do
    Action.setFactor Scalar.one
    Action.setPrecision (← request.resolve)
    return .settings (← precision) (← factor)
  | .step point gradient hessian => step point gradient hessian
  | .iterate point gradient hessian plan => iterate fuel point gradient hessian plan
  | .gradient target point objective width =>
    differences target point objective fun f => Differences.gradient f (Width.ofDatum width)
  | .hessian target point objective width =>
    differences target point objective fun f => Differences.hessian f (Width.ofDatum width)
  | .withinTolerance norm tolerance => return .truth (← norm.atMost tolerance)
  | .demo => return .transcript (← Demo.transcript)
  | .requestLogger name => do
    let name ← Action.onJournal (·.request name)
    let j := (← Action.look).journal
    match j.find? name with
    | some l => return .logger l j.known
    | none => return .done
  | .setLevel level => do
    Action.onJournal (·.setLevel level)
    levels
  | .configure level template stream => do
    Action.onJournal (·.configure level template stream)
    levels
  | .emit name level text => do
    let name ← Action.onJournal (·.request name)
    Action.record name level (.text text)
    return .done

/-- The outcomes of commands one after the other, each with what was written during it, and whether
a command left the block. A refused command does not end the block. -/
def runAll (fuel : Nat) : List Command → SessionAction (List (Outcome × List (Entry Float)) × Bool)
  | [] => return ([], false)
  | .leave :: _ => return ([], true)
  | command :: rest => do
    let outcome ← match ← attempt (run fuel command) with
      | .ok outcome => pure outcome
      | .error cause => pure (.refused cause)
    let written ← takeWritten
    let (outcomes, left) ← runAll fuel rest
    return ((outcome, written) :: outcomes, left)

end

/-- The outcomes of a whole session, each with what was written during it. -/
def outcomes (fuel : Nat) (commands : List Command) : List (Outcome × List (Entry Float)) :=
  match runAll fuel commands World.initial with
  | (.ok (outcomes, _), _) => outcomes
  | (.error _, _) => []

end Session

end NewtonRaphson
