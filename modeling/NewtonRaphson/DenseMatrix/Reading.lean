import NewtonRaphson.Datum.Number
import NewtonRaphson.DenseMatrix
import NewtonRaphson.Scalar.Binary

/-! # Matrices from data

Nested lists as matrices: a flat list is a column vector, a list of equally long lists a matrix with
these rows. The shape of the data is found first, then the entries are converted in order, and only
then depth and size are judged. -/

namespace NewtonRaphson

namespace Datum

mutual

/-- The lengths of the nested lists from the outside in, if they are the same everywhere at each
depth. A datum that is not a list has no lengths. -/
def extent? : Datum → Option (List Nat)
  | list [] => some [0]
  | list (d :: rest) => do
    let inner ← d.extent?
    if allOfExtent inner rest then some ((rest.length + 1) :: inner) else none
  | _ => some []

/-- Whether all data of a list have the same given lengths. -/
def allOfExtent (inner : List Nat) : List Datum → Bool
  | [] => true
  | d :: rest => d.extent? == some inner && allOfExtent inner rest

end

mutual

/-- The data inside nested lists that are not lists themselves, in order. -/
def leaves : Datum → List Datum
  | list items => leavesOfAll items
  | d => [d]

/-- The leaves of each datum of a list, in order. -/
def leavesOfAll : List Datum → List Datum
  | [] => []
  | d :: rest => d.leaves ++ leavesOfAll rest

end

/-- The data that a datum consists of when it is gone through: the items of a list, the characters
of a text, the names of a record. Other data cannot be gone through. -/
def items : Datum → Except Fault (List Datum)
  | list ds => .ok ds
  | text s => .ok (s.toList.map fun c => .text (String.singleton c))
  | record fields => .ok (fields.map fun (name, _) => .text name)
  | _ => .error .badKind

end Datum

namespace DenseMatrix

/-- The greatest depth at which nested lists have a shape. -/
def maxDepth : Nat := 64

/-- The matrix of nested lists. -/
def ofDatum (p : Precision) (d : Datum) : Except Fault (DenseMatrix Float) := do
  let some extent := d.extent? | throw .badValue
  if extent.length > maxDepth then throw .badValue
  let entries ← d.leaves.mapM Datum.toEntry
  match extent with
  | [n] => ofList p n 1 entries
  | [r, c] => ofList p r c entries
  | _ => throw (.depth extent.length)

/-- The doubles that the parts of a datum are. -/
def vectorEntries (d : Datum) : Except Fault (List Float) := do
  (← d.items).mapM Datum.toEntry

/-- The column vector of the parts of a datum. -/
def vectorOfDatum (p : Precision) (d : Datum) : Except Fault (DenseMatrix Float) := do
  column p (← vectorEntries d)

/-- A dimension given as a datum: an integer above zero. -/
def positiveDimension (dimension : Dimension) : Datum → Except Fault { n : Nat // 0 < n }
  | .int n =>
    if h : 0 < n then .ok ⟨n.toNat, Int.pos_iff_toNat_pos.mp h⟩
    else .error (.dimensionSign dimension n)
  | d => .error (.dimensionKind dimension d)

end DenseMatrix

end NewtonRaphson
