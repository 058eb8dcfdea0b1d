/-! # Grids

A rectangular array of a size that its type fixes. A grid is known by its entries: every operation
is given by the entries of its result (`Grid.ofFn`), and two grids with the same entries are equal
(`Grid.ext`). -/

namespace NewtonRaphson

/-- A **grid** of `r` rows with `c` entries each. -/
structure Grid (S : Type) (r c : Nat) where
  /-- The rows from top to bottom. -/
  rows : Vector (Vector S c) r
  deriving DecidableEq

namespace Grid

variable {S T : Type} {r c : Nat}

/-- The entry in a row and a column. -/
def get (a : Grid S r c) (i : Fin r) (j : Fin c) : S := a.rows[i][j]

/-- The grid with given entries. -/
def ofFn (f : Fin r → Fin c → S) : Grid S r c := ⟨.ofFn fun i => .ofFn fun j => f i j⟩

@[simp] theorem get_ofFn (f : Fin r → Fin c → S) (i : Fin r) (j : Fin c) :
    (ofFn f).get i j = f i j := by
  simp [get, ofFn]

/-- Grids with the same entries are equal. -/
theorem ext {a b : Grid S r c} (h : ∀ i j, a.get i j = b.get i j) : a = b := by
  obtain ⟨a⟩ := a
  obtain ⟨b⟩ := b
  congr 1
  apply Vector.ext
  intro i hi
  apply Vector.ext
  intro j hj
  simpa [get] using h ⟨i, hi⟩ ⟨j, hj⟩

@[simp] theorem ofFn_get (a : Grid S r c) : ofFn a.get = a := ext fun i j => by simp

/-- Every entry replaced by a value of it. -/
def map (f : S → T) (a : Grid S r c) : Grid T r c := ofFn fun i j => f (a.get i j)

@[simp] theorem get_map (f : S → T) (a : Grid S r c) (i : Fin r) (j : Fin c) :
    (a.map f).get i j = f (a.get i j) := by
  simp [map]

/-- Corresponding entries put together. -/
def zipWith {U : Type} (f : S → T → U) (a : Grid S r c) (b : Grid T r c) : Grid U r c :=
  ofFn fun i j => f (a.get i j) (b.get i j)

@[simp] theorem get_zipWith {U : Type} (f : S → T → U) (a : Grid S r c) (b : Grid T r c) (i : Fin r)
    (j : Fin c) : (zipWith f a b).get i j = f (a.get i j) (b.get i j) := by
  simp [zipWith]

/-- The same entries in a grid whose size is known by other names. -/
def cast {r' c' : Nat} (a : Grid S r c) (hr : r = r') (hc : c = c') : Grid S r' c' :=
  ofFn fun i j => a.get (i.cast hr.symm) (j.cast hc.symm)

@[simp] theorem get_cast {r' c' : Nat} (a : Grid S r c) (hr : r = r') (hc : c = c') (i : Fin r')
    (j : Fin c') : (a.cast hr hc).get i j = a.get (i.cast hr.symm) (j.cast hc.symm) := by
  simp [cast]

/-- A grid is not changed by naming its size as it is. -/
@[simp] theorem cast_rfl (a : Grid S r c) : a.cast rfl rfl = a := ext fun i j => by simp

/-- The same entries where the number of rows is known by another name. -/
def castRows {r' : Nat} (a : Grid S r c) (h : r = r') : Grid S r' c := a.cast h rfl

@[simp] theorem get_castRows {r' : Nat} (a : Grid S r c) (h : r = r') (i : Fin r') (j : Fin c) :
    (a.castRows h).get i j = a.get (i.cast h.symm) j := by
  simp [castRows]

/-- The same entries where the number of columns is known by another name. -/
def castCols {c' : Nat} (a : Grid S r c) (h : c = c') : Grid S r c' := a.cast rfl h

@[simp] theorem get_castCols {c' : Nat} (a : Grid S r c) (h : c = c') (i : Fin r) (j : Fin c') :
    (a.castCols h).get i j = a.get i (j.cast h.symm) := by
  simp [castCols]

/-- Rows and columns exchanged. -/
def transpose (a : Grid S r c) : Grid S c r := ofFn fun i j => a.get j i

@[simp] theorem get_transpose (a : Grid S r c) (i : Fin c) (j : Fin r) :
    a.transpose.get i j = a.get j i := by
  simp [transpose]

/-- Exchanging rows and columns twice changes nothing. -/
@[simp] theorem transpose_transpose (a : Grid S r c) : a.transpose.transpose = a :=
  ext fun i j => by simp

/-- One entry replaced. -/
def set (a : Grid S r c) (i : Fin r) (j : Fin c) (x : S) : Grid S r c :=
  ofFn fun i' j' => if i' = i ∧ j' = j then x else a.get i' j'

@[simp] theorem get_set (a : Grid S r c) (i : Fin r) (j : Fin c) (x : S) (i' : Fin r) (j' : Fin c) :
    (a.set i j x).get i' j' = if i' = i ∧ j' = j then x else a.get i' j' := by
  simp [set]

/-- Two rows exchanged. -/
def swapRows (p q : Fin r) (a : Grid S r c) : Grid S r c :=
  ofFn fun i j => a.get (if i = p then q else if i = q then p else i) j

@[simp] theorem get_swapRows (p q : Fin r) (a : Grid S r c) (i : Fin r) (j : Fin c) :
    (a.swapRows p q).get i j = a.get (if i = p then q else if i = q then p else i) j := by
  simp [swapRows]

/-- Whether all entries pass a test. -/
def all (p : S → Bool) (a : Grid S r c) : Bool := a.rows.all fun row => row.all p

theorem all_eq_true {p : S → Bool} {a : Grid S r c} :
    a.all p = true ↔ ∀ i j, p (a.get i j) = true := by
  simp only [all, Vector.all_eq_true, get]
  exact ⟨fun h i j => h i i.2 j j.2, fun h i hi j hj => h ⟨i, hi⟩ ⟨j, hj⟩⟩

/-- The entries row by row, as a list of rows. -/
def toLists (a : Grid S r c) : List (List S) := a.rows.toList.map Vector.toList

/-- The entries row after row in one list. -/
def entries (a : Grid S r c) : List S := a.toLists.flatten

end Grid

end NewtonRaphson
