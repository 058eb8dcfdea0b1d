import NewtonRaphson.Scalar.Binary
import NewtonRaphson.SingularValues

/-! # Singular values by plane rotations

The one-sided Jacobi method in doubles: pairs of columns are rotated until all are orthogonal to
working precision; their lengths are then the singular values. Lengths are taken after scaling by a
power of two, so that neither large nor small entries spoil them. -/

namespace NewtonRaphson

namespace Jacobi

/-- The power of two not above the number without its sign; one for a zero. -/
def powerBelow (x : Float) : Float :=
  match Binary.ofFloat? x with
  | some b =>
    if b.mantissa = 0 then 1.0 else (Binary.mk false (twoTo b.mantissa.log2) b.exponent).toFloat
  | none => 1.0

/-- The length of a column. -/
def length {n : Nat} (v : Vector Float n) : Float :=
  let high := v.foldl (fun m x => if m < x.abs then x.abs else m) 0.0
  let unit := powerBelow high
  unit * (v.foldl (fun s x => s + (x / unit) * (x / unit)) 0.0).sqrt

/-- The cosine of the angle between two columns of given lengths. -/
def cosine {n : Nat} (v w : Vector Float n) (lengthV lengthW : Float) : Float :=
  Fin.foldl n (fun s i => s + (v.get i / lengthV) * (w.get i / lengthW)) 0.0

/-- Two columns rotated in their plane so that they become orthogonal; none if they are already, or
one of them is zero. -/
def rotate? {n : Nat} (v w : Vector Float n) : Option (Vector Float n × Vector Float n) :=
  let lv := length v
  let lw := length w
  if lv == 0.0 || lw == 0.0 then none
  else
    let cos := cosine v w lv lw
    if cos.abs ≤ 2.220446049250313e-16 then none
    else
      let zeta := (lw / lv - lv / lw) / (2.0 * cos)
      let sign := if zeta < 0.0 then -1.0 else 1.0
      let t := sign / (zeta.abs + (1.0 + zeta * zeta).sqrt)
      let c := 1.0 / (1.0 + t * t).sqrt
      let s := c * t
      some (v.zipWith (fun x y => c * x - s * y) w, v.zipWith (fun x y => s * x + c * y) w)

/-- One sweep over all pairs of columns, and whether a pair was rotated. -/
def sweep {n : Nat} (columns : Vector (Vector Float n) n) : Vector (Vector Float n) n × Bool :=
  Fin.foldl n (fun state i =>
    Fin.foldl n (fun (columns, moved) j =>
      if i < j then
        match rotate? (columns.get i) (columns.get j) with
        | some (v, w) =>
          (.ofFn fun k => if k = i then v else if k = j then w else columns.get k, true)
        | none => (columns, moved)
      else (columns, moved)) state) (columns, false)

/-- Sweeps until no pair is rotated any more, a bounded number of times. -/
def sweeps {n : Nat} : Nat → Vector (Vector Float n) n → Vector (Vector Float n) n
  | 0, columns => columns
  | bound + 1, columns =>
    match sweep columns with
    | (columns, true) => sweeps bound columns
    | (columns, false) => columns

/-- The singular values of a square grid, rounded to a precision. -/
def singularValues (p : Precision) {n : Nat} (a : Grid Float n n) : Vector Float n :=
  (sweeps 60 a.transpose.rows).map fun column => p.nearest (length column)

end Jacobi

instance : SingularValues Float where
  singularValues := Jacobi.singularValues

end NewtonRaphson
