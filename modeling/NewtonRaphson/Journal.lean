import NewtonRaphson.Journal.Level
import NewtonRaphson.Journal.Template

/-! # The journal

Named loggers with levels and handlers, the settings that new loggers start from, and the entries
written so far. All loggers live in one namespace; a logger is set up the first time it is asked for
and is kept from then on. A change of the settings goes through the kept loggers one by one. -/

namespace NewtonRaphson

/-- Why an iteration ended. -/
inductive StopReason where
  /-- The gradient norm is within the tolerance. -/
  | converged
  /-- The Hessian of the last step was singular. -/
  | singularHessian
  /-- A value of the last step was not finite. -/
  | nonFinite
  /-- The bound on the number of steps was reached. -/
  | stepBound
  deriving DecidableEq

/-- The sentence that tells a reason. -/
def StopReason.message : StopReason → String
  | converged => "Gradient tolerance satisfied."
  | singularHessian => "Singular Hessian encountered."
  | nonFinite => "Non-finite values encountered."
  | stepBound => "Maximum iterations reached."

/-- What a record tells. Points are kept as numbers, so that a reader of the journal chooses how to
write them. -/
inductive Message (S : Type) where
  /-- A text of the caller's. -/
  | text (s : String)
  /-- A derivative is not finite at a point. -/
  | nonFiniteDerivative (point : List S)
  /-- The system of a step has no trustworthy solution. -/
  | singularHessian (cause : Fault)
  /-- The point of a step would not be finite. -/
  | overflow
  /-- A step of a length led to a point. -/
  | step (length : S) (point : List S)
  /-- An iteration ended after some steps. -/
  | stopped (steps : Nat) (reason : StopReason)

/-- A **record**: what a logger was told, and how urgent it is. -/
structure Record (S : Type) where
  /-- The name of the logger. -/
  logger : String
  /-- The level of the record. -/
  level : Int
  /-- What it tells. -/
  message : Message S

/-- A **handler**: where and in which form a logger writes. -/
structure Handler where
  /-- Records below this level are passed over. -/
  level : Int
  /-- The template of a line. -/
  template : String
  /-- The name of the stream written to. -/
  stream : String
  deriving DecidableEq

/-- A **logger**. -/
structure Logger where
  /-- The full name. -/
  name : String
  /-- Records below this level are dropped; level zero stands for the level of an ancestor. -/
  level : Int
  /-- Where its records are written. -/
  handlers : List Handler
  /-- Whether ancestors get its records too. -/
  propagates : Bool
  deriving DecidableEq

/-- An **entry**: a record on its way to a stream. -/
structure Entry (S : Type) where
  /-- The name of the stream. -/
  stream : String
  /-- The template of the line. -/
  template : String
  /-- The record. -/
  record : Record S

/-- The **journal**: settings, loggers, and what was written. -/
structure Journal (S : Type) where
  /-- The level that loggers get. -/
  level : Int
  /-- The template that handlers get. -/
  template : String
  /-- The stream that handlers get. -/
  stream : String
  /-- Every logger there is, in the order of their creation. -/
  loggers : List Logger
  /-- The names of the loggers that were set up, in the order of their setup. -/
  known : List String
  /-- The entries written, the oldest first. -/
  written : List (Entry S)

namespace Journal

variable {S : Type}

/-- The name of the namespace, and of its top logger. -/
def rootName : String := "newtonstep"

/-- The name of the logger that steps report to. -/
def stepLogger : String := "newtonstep.optimize.newton"

/-- The name of the logger that iterations report to. -/
def iterationLogger : String := "newtonstep.optimize.driver"

/-- The template that is used when none is given. -/
def defaultTemplate : String := "[%(levelname)s] %(name)s: %(message)s"

/-- The stream that is used when none is given. -/
def defaultStream : String := "stderr"

/-- The full name of a logger: names outside the namespace are put under it. -/
def fullName : Option String → String
  | none => rootName
  | some name =>
    if name = rootName ∨ name.startsWith (rootName ++ ".") then name else rootName ++ "." ++ name

/-- The logger of a full name, if it exists. -/
def find? (j : Journal S) (name : String) : Option Logger := j.loggers.find? (·.name == name)

/-- Changes the logger of a full name. -/
def modify (j : Journal S) (name : String) (f : Logger → Logger) : Journal S :=
  { j with loggers := j.loggers.map fun l => if l.name = name then f l else l }

/-- The handler that the settings describe; an unusable template gives none. -/
def newHandler (j : Journal S) : Except Fault Handler :=
  if Template.isUsable j.template then .ok ⟨j.level, j.template, j.stream⟩ else .error .badValue

/-- The logger of a name, which is created and set up if need be. If the template of the settings is
unusable, the logger is left with the level alone. -/
def request (j : Journal S) (given : Option String) : Except Fault String × Journal S :=
  let name := fullName given
  if j.known.contains name then (.ok name, j)
  else
    let j :=
      if (j.find? name).isSome then j else { j with loggers := j.loggers ++ [⟨name, 0, [], true⟩] }
    let keep (j : Journal S) := { j with known := j.known ++ [name] }
    if (j.find? name).any (!·.handlers.isEmpty) then (.ok name, keep j)
    else
      let j := j.modify name fun l => { l with level := j.level }
      match j.newHandler with
      | .error f => (.error f, j)
      | .ok h =>
        (.ok name, keep (j.modify name fun l => { l with handlers := [h], propagates := false }))

/-- The journal before anything is configured: the loggers of steps and of iterations are set up. -/
def initial : Journal S :=
  let empty : Journal S := ⟨Level.warning, defaultTemplate, defaultStream, [], [], []⟩
  ((empty.request (some stepLogger)).2.request (some iterationLogger)).2

/-- Sets the level of the settings, of every logger that was set up, and of its handlers. -/
def setLevel (j : Journal S) (given : Datum) : Except Fault Unit × Journal S :=
  match Level.ofDatum given with
  | .error f => (.error f, j)
  | .ok level =>
    (.ok (), { j with
      level
      loggers := j.loggers.map fun l =>
        if j.known.contains l.name then
          { l with level, handlers := l.handlers.map fun h => { h with level } }
        else l })

/-- Gives the loggers of a list of names the level of the settings and, in place of their handlers,
a new one. Where none can be made the rest is left as it is. -/
def renewAll (j : Journal S) : List String → Except Fault Unit × Journal S
  | [] => (.ok (), j)
  | name :: rest =>
    let j := j.modify name fun l => { l with level := j.level, handlers := [] }
    match j.newHandler with
    | .error f => (.error f, j)
    | .ok h => (j.modify name fun l => { l with handlers := [h] }).renewAll rest

/-- Replaces the settings and renews every logger that was set up. Without a template, or with an
empty one, the default is used. -/
def configure (j : Journal S) (level : Datum) (template : Option String) (stream : Option String) :
    Except Fault Unit × Journal S :=
  match Level.ofDatum level with
  | .error f => (.error f, j)
  | .ok level =>
    let template := match template with
      | none | some "" => defaultTemplate
      | some t => t
    { j with level, template, stream := stream.getD defaultStream }.renewAll j.known

/-! ### Writing -/

/-- The names above a name, the nearest first, given its characters in reverse: what stands before a
dot that is not the first character. A dot right before such a dot is passed over. -/
def namesAbove : Nat → List Char → List String
  | 0, _ => []
  | fuel + 1, cs =>
    match cs.dropWhile (· != '.') with
    | [] | [_] => []
    | _ :: above => String.ofList above.reverse :: namesAbove fuel (above.drop 1)

/-- The names of the ancestors of a logger, the nearest first. -/
def ancestors (name : String) : List String := namesAbove name.length name.toList.reverse

/-- The level below which a logger drops records: its own, or that of the nearest ancestor that has
one, or that of the root of all loggers. -/
def effectiveLevel (j : Journal S) (l : Logger) : Int :=
  let levels := l.level :: (ancestors l.name).map fun name => ((j.find? name).map (·.level)).getD 0
  (levels.find? (· != 0)).getD Level.warning

/-- The entries a record leads to: one for each handler that it is urgent enough for. A logger
without handlers writes the bare text of warnings and of anything more urgent. -/
def entriesFor (j : Journal S) (l : Logger) (record : Record S) : List (Entry S) :=
  if 0 < record.level ∧ j.effectiveLevel l ≤ record.level then
    if l.handlers.isEmpty then
      if Level.warning ≤ record.level then [⟨defaultStream, "%(message)s", record⟩] else []
    else
      (l.handlers.filter (·.level ≤ record.level)).map fun h => ⟨h.stream, h.template, record⟩
  else []

/-- Hands a record to the logger it names. -/
def emit (j : Journal S) (record : Record S) : Journal S :=
  match j.find? record.logger with
  | none => j
  | some l => { j with written := j.written ++ j.entriesFor l record }

/-- The level of each logger that was set up, in the order of their setup. -/
def levels (j : Journal S) : List (String × Int) :=
  j.known.filterMap fun name => (j.find? name).map fun l => (name, l.level)

end Journal

end NewtonRaphson
