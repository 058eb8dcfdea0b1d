import NewtonRaphson.Decimal.Reading
import NewtonRaphson.Fault

/-! # Data as numbers

How a datum becomes an entry of a matrix, a factor, or a side of a comparison. An integer becomes
the nearest double and is compared with a double without any rounding. -/

namespace NewtonRaphson

/-- The double nearest to an integer; beyond the range of doubles there is none. -/
def realOfInt (n : Int) : Except Fault Float :=
  let x := Float.ofInt n
  if x.isFinite then .ok x else .error .tooLarge

/-- The integer nearest to zero between a double and zero. An undefined value has none, an infinity
is out of range. -/
def truncateReal (x : Float) : Except Fault Int :=
  match Binary.ofFloat? x with
  | some b => .ok b.truncate
  | none => .error (if x.isNaN then .badValue else .tooLarge)

/-- The exact order of two doubles, an infinity beyond all numbers; none with an undefined value. -/
def compareReal (x y : Float) : Option Ordering :=
  if x < y then some .lt else if y < x then some .gt else if x == y then some .eq else none

/-- The exact order of a double and an integer. -/
def compareRealInt (x : Float) (n : Int) : Option Ordering :=
  match Binary.ofFloat? x with
  | some b => some (b.compareInt n)
  | none => if x.isNaN then none else some (if x < 0 then .lt else .gt)

namespace Datum

/-- The double that a datum is as an entry of a matrix. The absent value is undefined, and a text is
what it reads as; any other text or a list has no numeric value, a record is of the wrong kind. -/
def toEntry : Datum → Except Fault Float
  | null => .ok (0.0 / 0.0)
  | bool b => .ok (if b then 1.0 else 0.0)
  | int n => realOfInt n
  | real x => .ok x
  | text s => (Numeral.read? s).elim (.error .badValue) .ok
  | list _ => .error .badValue
  | record _ => .error .badKind

/-- The double that a datum is in arithmetic, where only numbers and truth values count. -/
def toFactor : Datum → Except Fault Float
  | bool b => .ok (if b then 1.0 else 0.0)
  | int n => realOfInt n
  | real x => .ok x
  | _ => .error .badKind

/-- The integer a whole number or truth value stands for. -/
def toWhole? : Datum → Option Int
  | bool b => some (if b then 1 else 0)
  | int n => some n
  | _ => none

/-- The order of a number against an integer; other kinds cannot be compared with one. -/
def compareWith (d : Datum) (n : Int) : Except Fault (Option Ordering) :=
  match d.toWhole?, d with
  | some m, _ => .ok (some (compare m n))
  | none, real x => .ok (compareRealInt x n)
  | none, _ => .error .badKind

/-- Whether a number is below an integer. -/
def isBelow (d : Datum) (n : Int) : Except Fault Bool := return (← d.compareWith n) = some .lt

/-- Whether a number is above an integer. -/
def isAbove (d : Datum) (n : Int) : Except Fault Bool := return (← d.compareWith n) = some .gt

/-- The order of two numbers, where both are numbers. -/
def compareNumbers? (a b : Datum) : Option (Option Ordering) :=
  match a, b with
  | real x, real y => some (compareReal x y)
  | a, b =>
    match a.toWhole?, b.toWhole? with
    | some m, some n => some (some (compare m n))
    | some m, none =>
      match b with
      | real y => some ((compareRealInt y m).map Ordering.swap)
      | _ => none
    | none, some n =>
      match a with
      | real x => some (compareRealInt x n)
      | _ => none
    | none, none => none

mutual

/-- Equality of data: numbers by their value, everything else by its parts. -/
def same : Datum → Datum → Bool
  | null, null => true
  | text s, text t => s == t
  | list xs, list ys => sameAll xs ys
  | record xs, record ys => xs.length == ys.length && sameFields xs ys
  | a, b => compareNumbers? a b == some (some .eq)

/-- Equality of lists entry by entry. -/
def sameAll : List Datum → List Datum → Bool
  | [], [] => true
  | x :: xs, y :: ys => same x y && sameAll xs ys
  | _, _ => false

/-- Whether each field has a field of the same name and an equal value on the other side. -/
def sameFields : List (String × Datum) → List (String × Datum) → Bool
  | [], _ => true
  | (name, x) :: xs, ys =>
    (match ys.lookup name with
      | some y => same x y
      | none => false) && sameFields xs ys

end

mutual

/-- Whether the first datum is at most the second. Numbers are compared exactly, texts and lists
lexicographically; other pairs cannot be compared. -/
def atMost : Datum → Datum → Except Fault Bool
  | text s, text t => .ok (s ≤ t)
  | list xs, list ys => atMostAll xs ys
  | a, b =>
    match compareNumbers? a b with
    | some o => .ok (o == some .lt || o == some .eq)
    | none => .error .badKind

/-- The comparison of lists is that of the first two entries that differ, else of the lengths. -/
def atMostAll : List Datum → List Datum → Except Fault Bool
  | [], _ => .ok true
  | _ :: _, [] => .ok false
  | x :: xs, y :: ys => if same x y then atMostAll xs ys else atMost x y

end

end Datum

end NewtonRaphson
