import NewtonRaphson.Fault
import NewtonRaphson.Grid
import NewtonRaphson.Scalar

/-! # Dense matrices

A matrix with entries of one precision and a size of at least one row and one column. The operations
on two matrices demand equal precisions and fitting shapes, in this order, and round every single
operation to that precision. -/

namespace NewtonRaphson

/-- A **dense matrix** of one precision. -/
structure DenseMatrix (S : Type) where
  /-- The precision of every entry. -/
  precision : Precision
  /-- The number of rows. -/
  rows : Nat
  /-- The number of columns. -/
  cols : Nat
  /-- There is a row. -/
  rows_pos : 0 < rows
  /-- There is a column. -/
  cols_pos : 0 < cols
  /-- The entries. -/
  grid : Grid S rows cols

namespace DenseMatrix

variable {S : Type}

/-- The numbers of rows and columns. -/
def shape (a : DenseMatrix S) : Shape := (a.rows, a.cols)

/-- The number of entries. -/
def size (a : DenseMatrix S) : Nat := a.rows * a.cols

/-- Whether the matrix is a column vector. -/
def isVector (a : DenseMatrix S) : Bool := a.cols == 1

/-- Matrices of one shape and precision with the same entries are equal. -/
theorem ext_get {a b : DenseMatrix S} (hp : a.precision = b.precision) (hr : a.rows = b.rows)
    (hc : a.cols = b.cols)
    (h : ∀ i j, a.grid.get i j = b.grid.get (i.cast hr) (j.cast hc)) : a = b := by
  obtain ⟨p, r, c, _, _, g⟩ := a
  obtain ⟨q, r', c', _, _, g'⟩ := b
  dsimp only at hp hr hc
  subst hp hr hc
  congr
  exact Grid.ext h

/-- The entries row by row. -/
def toLists (a : DenseMatrix S) : List (List S) := a.grid.toLists

/-- The entries row after row. -/
def entries (a : DenseMatrix S) : List S := a.grid.entries

/-- The matrix with another grid of the same size. -/
def withGrid (a : DenseMatrix S) (g : Grid S a.rows a.cols) : DenseMatrix S := { a with grid := g }

/-- The entries of a matrix `b` in a grid of the size of `a`, which is the same. -/
def gridOf (a b : DenseMatrix S) (h : a.rows = b.rows ∧ a.cols = b.cols) : Grid S a.rows a.cols :=
  b.grid.cast h.1.symm h.2.symm

variable [Scalar S]

/-- Whether every entry is a number. -/
def isFinite (a : DenseMatrix S) : Bool := a.grid.all Scalar.isFinite

/-- The matrix of zeros. -/
def zeros (p : Precision) (rows cols : Nat) (hr : 0 < rows) (hc : 0 < cols) : DenseMatrix S :=
  ⟨p, rows, cols, hr, hc, .ofFn fun _ _ => Scalar.zero⟩

/-- The identity matrix. -/
def identity (p : Precision) (n : Nat) (hn : 0 < n) : DenseMatrix S :=
  ⟨p, n, n, hn, hn, .ofFn fun i j => if i = j then Scalar.one else Scalar.zero⟩

/-- The matrix with given entries, each rounded to the precision. -/
def ofFn (p : Precision) {rows cols : Nat} (hr : 0 < rows) (hc : 0 < cols)
    (f : Fin rows → Fin cols → S) : DenseMatrix S :=
  ⟨p, rows, cols, hr, hc, .ofFn fun i j => Scalar.round p (f i j)⟩

/-- The matrix of a given size with the entries of a list, row after row, each rounded to the
precision. A size without rows or columns is refused. -/
def ofList (p : Precision) (rows cols : Nat) (xs : List S) : Except Fault (DenseMatrix S) :=
  if h : 0 < rows ∧ 0 < cols then
    let all := xs.toArray
    .ok (ofFn p h.1 h.2 fun i j => all.getD (i * cols + j) Scalar.zero)
  else .error .emptyDimension

/-- The column vector of a list. -/
def column (p : Precision) (xs : List S) : Except Fault (DenseMatrix S) := ofList p xs.length 1 xs

/-! ### Arithmetic -/

/-- Two matrices of one precision and shape combined entry by entry. -/
def combine (operation : Operation) (f : Precision → S → S → S) (a b : DenseMatrix S) :
    Except Fault (DenseMatrix S) :=
  if a.precision = b.precision then
    if h : a.rows = b.rows ∧ a.cols = b.cols then
      .ok (a.withGrid (a.grid.zipWith (f a.precision) (a.gridOf b h)))
    else .error (.shapeMismatch operation a.shape b.shape)
  else .error (.mixedPrecision operation a.precision b.precision)

/-- The sum. -/
def add (a b : DenseMatrix S) : Except Fault (DenseMatrix S) := combine .addition Scalar.add a b

/-- The difference. -/
def sub (a b : DenseMatrix S) : Except Fault (DenseMatrix S) := combine .subtraction Scalar.sub a b

/-- What a matrix holds after being assigned another one of its shape and precision. -/
def overwrite (a b : DenseMatrix S) : Except Fault (DenseMatrix S) :=
  combine .assignment (fun _ _ y => y) a b

/-- The matrix with all signs changed. -/
def neg (a : DenseMatrix S) : DenseMatrix S := a.withGrid (a.grid.map (Scalar.neg a.precision))

/-- The matrix times a number, which is first rounded to the precision. -/
def scale (a : DenseMatrix S) (x : S) : DenseMatrix S :=
  let x := Scalar.round a.precision x
  a.withGrid (a.grid.map (Scalar.mul a.precision · x))

/-- The matrix divided by a number, which is first rounded to the precision. -/
def divide (a : DenseMatrix S) (x : S) : DenseMatrix S :=
  let x := Scalar.round a.precision x
  a.withGrid (a.grid.map (Scalar.div a.precision · x))

/-- The sum of terms from the first to the last, rounded after each. -/
def sum (p : Precision) {n : Nat} (f : Fin n → S) : S :=
  Fin.foldl n (fun s i => Scalar.add p s (f i)) Scalar.zero

/-- The product of two grids, each entry a sum of products in the order of the inner index. -/
def gridProduct (p : Precision) {r n c : Nat} (a : Grid S r n) (b : Grid S n c) : Grid S r c :=
  .ofFn fun i j => sum p fun k => Scalar.mul p (a.get i k) (b.get k j)

/-- The matrix product. -/
def mul (a b : DenseMatrix S) : Except Fault (DenseMatrix S) :=
  if a.precision = b.precision then
    if h : a.cols = b.rows then
      .ok ⟨a.precision, a.rows, b.cols, a.rows_pos, b.cols_pos,
        gridProduct a.precision a.grid (b.grid.castRows (Eq.symm h))⟩
    else .error (.innerDimensions a.shape b.shape)
  else .error (.mixedPrecision .product a.precision b.precision)

/-- Rows and columns exchanged. -/
def transpose (a : DenseMatrix S) : DenseMatrix S :=
  ⟨a.precision, a.cols, a.rows, a.cols_pos, a.rows_pos, a.grid.transpose⟩

/-- The Euclidean norm: the root of the plain sum of squares, all in the precision of the matrix. -/
def norm (a : DenseMatrix S) : S :=
  let p := a.precision
  Scalar.sqrt p (a.entries.foldl (fun s x => Scalar.add p s (Scalar.mul p x x)) Scalar.zero)

end DenseMatrix

end NewtonRaphson
