import NewtonRaphson.Datum.Number
import NewtonRaphson.Text.LetterCase

/-! # Logging levels

Levels are integers, higher ones more urgent. Some have names; level zero means that a logger
follows its ancestors. -/

namespace NewtonRaphson

namespace Level

/-- The level at which steps are reported. -/
def debug : Int := 10

/-- The level at which the end of an iteration is reported. -/
def info : Int := 20

/-- The level at which failures are reported, also the level of the root of all loggers. -/
def warning : Int := 30

/-- The level of a name in capitals. Two levels have two names. -/
def ofName? : String → Option Int
  | "CRITICAL" | "FATAL" => some 50
  | "ERROR" => some 40
  | "WARNING" | "WARN" => some warning
  | "INFO" => some info
  | "DEBUG" => some debug
  | "NOTSET" => some 0
  | _ => none

/-- The name under which a level is written. -/
def name (level : Int) : String :=
  if level = 50 then "CRITICAL"
  else if level = 40 then "ERROR"
  else if level = warning then "WARNING"
  else if level = info then "INFO"
  else if level = debug then "DEBUG"
  else if level = 0 then "NOTSET"
  else s!"Level {level}"

/-- The level a datum stands for: a name in any case, or a number with its fraction dropped. -/
def ofDatum : Datum → Except Fault Int
  | .text s =>
    match ofName? (upperKeyword s) with
    | some level => .ok level
    | none => .error (.levelName s)
  | .real x => truncateReal x
  | d =>
    match d.toWhole? with
    | some n => .ok n
    | none => .error .badKind

end Level

end NewtonRaphson
