/-! # Precisions

The two binary floating-point formats a matrix may be stored in, and their names. -/

namespace NewtonRaphson

/-- The **precision** of a matrix: the binary format its entries are rounded to. -/
inductive Precision where
  /-- 24 significant bits. -/
  | single
  /-- 53 significant bits. -/
  | double
  deriving DecidableEq, Inhabited

namespace Precision

/-- The full name of a precision, the one that is printed. -/
def name : Precision → String
  | single => "float32"
  | double => "float64"

/-- The precision a setting may be given by: its full name or its short one. -/
def ofName? : String → Option Precision
  | "float32" | "single" => some single
  | "float64" | "double" => some double
  | _ => none

/-- Every name `ofName?` knows, in alphabetical order. -/
def names : List String := ["double", "float32", "float64", "single"]

@[simp] theorem ofName?_name (p : Precision) : ofName? p.name = some p := by
  cases p <;> rfl

/-- The precision two operands are compared in: single only if both are. -/
def join : Precision → Precision → Precision
  | single, single => single
  | _, _ => double

end Precision

end NewtonRaphson
