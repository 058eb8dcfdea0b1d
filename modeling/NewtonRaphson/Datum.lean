import NewtonRaphson.Decimal
import NewtonRaphson.Text.Quoted

/-! # Plain data

The values a caller hands over before they are known to be numbers, indices or settings, and how
they are shown in messages. -/

namespace NewtonRaphson

/-- A **datum**: a plain value with its kind known only when it is looked at. Its numbers are of the
types that the operations are declared for: truth values, integers and doubles. Fractions, decimals
and other kinds of numbers are no data here, and neither are byte strings. -/
inductive Datum where
  /-- The absent value. -/
  | null
  /-- A truth value; where a number is asked for it stands for 0 or 1. -/
  | bool (b : Bool)
  /-- An integer of any size. -/
  | int (n : Int)
  /-- A double. -/
  | real (x : Float)
  /-- A text. -/
  | text (s : String)
  /-- A list of data. -/
  | list (items : List Datum)
  /-- Named data in the order they were given. -/
  | record (fields : List (String × Datum))

namespace Datum

instance : Inhabited Datum := ⟨.null⟩

/-- The name of the kind of a datum, as messages give it. -/
def kindName : Datum → String
  | null => "NoneType"
  | bool _ => "bool"
  | int _ => "int"
  | real _ => "float"
  | text _ => "str"
  | list _ => "list"
  | record _ => "dict"

mutual

/-- A datum as messages show it. -/
def describe : Datum → String
  | null => "None"
  | bool b => if b then "True" else "False"
  | int n => toString n
  | real x => Numeral.plain x
  | text s => quoted s
  | list items => "[" ++ ", ".intercalate (describeAll items) ++ "]"
  | record fields => "\x7b" ++ ", ".intercalate (describeFields fields) ++ "\x7d"

/-- Each datum of a list as messages show it. -/
def describeAll : List Datum → List String
  | [] => []
  | d :: rest => d.describe :: describeAll rest

/-- Each field of a record as messages show it: the quoted name, a colon and the datum. -/
def describeFields : List (String × Datum) → List String
  | [] => []
  | (name, d) :: rest => (quoted name ++ ": " ++ d.describe) :: describeFields rest

end

/-- A tuple of data as messages show it; a comma follows a single entry. -/
def describeTuple (items : List Datum) : String :=
  match describeAll items with
  | [only] => "(" ++ only ++ ",)"
  | all => "(" ++ ", ".intercalate all ++ ")"

end Datum

end NewtonRaphson
