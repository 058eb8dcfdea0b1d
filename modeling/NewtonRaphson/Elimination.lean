import NewtonRaphson.DenseMatrix

/-! # Gaussian elimination with partial pivoting

A square system with several right-hand sides. The pivot of a column is an entry of largest absolute
value, the topmost of several; its row is exchanged with the first one, multiples of it are taken
from the rows below, the smaller system is solved, and the first unknown follows from the others.
Elimination fails exactly where a pivot is zero. -/

namespace NewtonRaphson

namespace Elimination

variable {S : Type} [Scalar S]

/-- The topmost row whose first entry is largest in absolute value. -/
def pivotRow {n c : Nat} (a : Grid S (n + 1) (c + 1)) : Fin (n + 1) :=
  Fin.foldl (n + 1)
    (fun best i =>
      if Scalar.lt (Scalar.abs (a.get best 0)) (Scalar.abs (a.get i 0)) then i else best) 0

/-- The multiple of the first row that is taken from the row below number `i`. -/
def multiplier (p : Precision) {n c : Nat} (a : Grid S (n + 1) (c + 1)) (i : Fin n) : S :=
  Scalar.div p (a.get i.succ 0) (a.get 0 0)

/-- The coefficients of the rows below, without their first column, after the multiples of the first
row are taken away. -/
def reduced (p : Precision) {n : Nat} (a : Grid S (n + 1) (n + 1)) : Grid S n n :=
  .ofFn fun i j =>
    Scalar.sub p (a.get i.succ j.succ) (Scalar.mul p (multiplier p a i) (a.get 0 j.succ))

/-- The right-hand sides of the rows below after the multiples of the first row are taken away. -/
def reducedSides (p : Precision) {n k : Nat} (a : Grid S (n + 1) (n + 1)) (b : Grid S (n + 1) k) :
    Grid S n k :=
  .ofFn fun i j => Scalar.sub p (b.get i.succ j) (Scalar.mul p (multiplier p a i) (b.get 0 j))

/-- The value of the first unknown for the right-hand side `j`, given the other unknowns. -/
def firstUnknown (p : Precision) {n k : Nat} (a : Grid S (n + 1) (n + 1)) (b : Grid S (n + 1) k)
    (x : Grid S n k) (j : Fin k) : S :=
  let rest := Fin.foldl n
    (fun s i => Scalar.sub p s (Scalar.mul p (a.get 0 i.succ) (x.get i j))) (b.get 0 j)
  Scalar.div p rest (a.get 0 0)

/-- The unknowns of a system with the first one on top of the others. -/
def onTop {n k : Nat} (first : Fin k → S) (x : Grid S n k) : Grid S (n + 1) k :=
  .ofFn fun i j => Fin.cases (first j) (fun i => x.get i j) i

/-- The solutions of a system, a column for each right-hand side; none if a pivot is zero. -/
def solve? (p : Precision) {k : Nat} : {n : Nat} → Grid S n n → Grid S n k → Option (Grid S n k)
  | 0, _, b => some b
  | _ + 1, a, b =>
    let pivot := pivotRow a
    let a := a.swapRows 0 pivot
    let b := b.swapRows 0 pivot
    if Scalar.eq (a.get 0 0) Scalar.zero then none
    else
      (solve? p (reduced p a) (reducedSides p a b)).map fun x => onTop (firstUnknown p a b x) x

end Elimination

end NewtonRaphson
