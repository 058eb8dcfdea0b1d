import NewtonRaphson.Datum.Number
import NewtonRaphson.Text.Blank
import NewtonRaphson.Text.LetterCase
import NewtonRaphson.World

/-! # Settings from data

How the precision and the singularity factor are chosen by name or by value. A refused value leaves
both as they are. -/

namespace NewtonRaphson

/-- What a precision is asked for by. -/
inductive PrecisionRequest where
  /-- Nothing, which stands for double precision. -/
  | absent
  /-- A name, in any case and with blanks around it. -/
  | named (given : String)
  /-- The name of a numeric type, which may be a type other than the two precisions. -/
  | numeric (type : String)
  /-- A value that names nothing. -/
  | unusable

/-- The precision that is asked for. -/
def PrecisionRequest.resolve : PrecisionRequest → Except Fault Precision
  | absent => .ok .double
  | named given =>
    match Precision.ofName? (lowerKeyword (trimBlank given)) with
    | some p => .ok p
    | none => .error (.precisionName given)
  | numeric type =>
    match Precision.ofName? type with
    | some p => .ok p
    | none => .error (.numericType type)
  | unusable => .error .badKind

/-- The precision a matrix is to be built in. -/
inductive PrecisionChoice where
  /-- The one of the settings. -/
  | configured
  /-- A given one. -/
  | fixed (p : Precision)
  /-- A value that is no precision. -/
  | unusable

/-- The precision that a choice comes to while the settings have the precision `current`. -/
def PrecisionChoice.resolve (current : Precision) : PrecisionChoice → Except Fault Precision
  | configured => .ok current
  | fixed p => .ok p
  | unusable => .error .badKind

/-- The singularity factor that a datum is: a number above zero. -/
def Datum.toSingularityFactor (d : Datum) : Except Fault Float := do
  if ← d.isAbove 0 then d.toFactor else throw .factorSign

/-- The threshold of a rank check that a datum is; without one the settings decide. -/
def Threshold.ofDatum (factor : Float) : Option Datum → Threshold Float
  | none | some .null => .standard factor
  | some d =>
    match d.toFactor with
    | .ok x => .given x
    | .error cause => .unusable cause

namespace Action

variable {S E : Type}

/-- The precision that a choice comes to. -/
def resolve (choice : PrecisionChoice) : Action S E Precision := fun w =>
  (choice.resolve w.settings.precision, w)

/-- Sets the precision of matrices built from now on. -/
def setPrecision (p : Precision) : Action S E Unit :=
  change fun w => { w with settings.precision := p }

/-- Sets the singularity factor. -/
def setFactor (x : S) : Action S E Unit := change fun w => { w with settings.factor := x }

/-- Carries out an action in a precision, which is taken back to what it was however the action
ends. -/
def inPrecision {α : Type} (p : Precision) (x : Action S E α) : Action S E α := fun w =>
  let (result, w') := x { w with settings.precision := p }
  (result, { w' with settings.precision := w.settings.precision })

end Action

end NewtonRaphson
