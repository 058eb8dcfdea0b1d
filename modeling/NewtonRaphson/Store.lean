import NewtonRaphson.DenseMatrix

/-! # The store

Matrices that can be overwritten are kept in a store and named by references. Two names for one
reference see the same matrix; a matrix that is added gets a reference that was never used
before. -/

namespace NewtonRaphson

/-- The name of a matrix in a store. -/
abbrev Ref := Nat

/-- A **store** of matrices. -/
structure Store (S : Type) where
  /-- The matrices in the order in which they were added. -/
  cells : Array (DenseMatrix S)

namespace Store

variable {S : Type}

/-- The store without matrices. -/
def empty : Store S := ⟨#[]⟩

/-- The number of matrices, which is the next reference. -/
def size (s : Store S) : Nat := s.cells.size

/-- The matrix of a reference, where there is one. -/
def get? (s : Store S) (r : Ref) : Option (DenseMatrix S) := s.cells[r]?

/-- The matrix of a reference. A reference that is not in the store reads as a single zero. -/
def get [Scalar S] (s : Store S) (r : Ref) : DenseMatrix S :=
  (s.get? r).getD (.zeros .double 1 1 Nat.one_pos Nat.one_pos)

/-- Adds a matrix under the next reference. -/
def add (s : Store S) (m : DenseMatrix S) : Store S := ⟨s.cells.push m⟩

/-- Overwrites the matrix of a reference. -/
def put (s : Store S) (r : Ref) (m : DenseMatrix S) : Store S := ⟨s.cells.setIfInBounds r m⟩

@[simp] theorem size_add (s : Store S) (m : DenseMatrix S) : (s.add m).size = s.size + 1 := by
  simp [size, add]

@[simp] theorem size_put (s : Store S) (r : Ref) (m : DenseMatrix S) :
    (s.put r m).size = s.size := by
  simp [size, put]

theorem get?_add (s : Store S) (m : DenseMatrix S) (r : Ref) :
    (s.add m).get? r = if r = s.size then some m else s.get? r :=
  Array.getElem?_push

theorem get?_put (s : Store S) (r : Ref) (m : DenseMatrix S) (q : Ref) :
    (s.put r m).get? q = if r = q then (if r < s.size then some m else none) else s.get? q := by
  simp only [get?, put, size, Array.getElem?_setIfInBounds]
  split <;> simp_all

end Store

end NewtonRaphson
