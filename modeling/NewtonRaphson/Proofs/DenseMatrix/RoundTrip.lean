import NewtonRaphson.DenseMatrix.NumericArray
import NewtonRaphson.Proofs.DenseMatrix.Access
import NewtonRaphson.Proofs.DenseMatrix.Reading
import NewtonRaphson.Proofs.DenseMatrix.Representable
import NewtonRaphson.Proofs.Double.Identity

/-! # Matrices taken apart and built again

A matrix whose entries belong to its precision is not changed by rounding them once more, so it is
built again from whatever shows all of its entries.

* **`DenseMatrix.ofDatum_eq_ofArray`** — nested lists are read as the array of the doubles that they
  stand for.
* **`DenseMatrix.ofArray_toArray`**, **`DenseMatrix.ofDatum_nested`** — the array of the entries,
  and the nested list of them, make the matrix again.
* **`DenseMatrix.walk_of_column`**, **`DenseMatrix.walk_of_ne`** — what the single indices show: a
  column from top to bottom, and nothing of any other matrix. -/

namespace NewtonRaphson

namespace DenseMatrix

/-! ## (1) Arrays and nested lists -/

/-- **Nested lists are read as an array** of doubles: their lengths are its lengths, and their
leaves its entries. -/
theorem ofDatum_eq_ofArray {d : Datum} {extent : List Nat} {ys : List Float}
    (hextent : d.extent? = some extent) (hdepth : extent.length ≤ maxDepth)
    (hentries : d.leaves.mapM Datum.toEntry = .ok ys) (p : Precision) :
    ofDatum p d = ofArray p ⟨.double, extent, ys⟩ := by
  rw [ofDatum, hextent, hentries]
  simp only [Nat.not_lt.mpr hdepth, if_false]
  rcases extent with _ | ⟨rows, _ | ⟨cols, _ | ⟨n, extent⟩⟩⟩ <;> rfl

/-- The entries of a matrix as nested lists, a list of each row. -/
def nested (m : DenseMatrix Float) : Datum :=
  .list (List.ofFn fun i => .list (List.ofFn fun j => .real (m.grid.get i j)))

theorem isTable_nested (m : DenseMatrix Float) :
    m.nested.IsTable fun i j => .real (m.grid.get i j) :=
  ⟨m.rows_pos, m.cols_pos, rfl, fun _ _ => .real _⟩

/-- The leaves of these lists are the entries of the matrix. -/
theorem mapM_toEntry_nested (m : DenseMatrix Float) :
    m.nested.leaves.mapM Datum.toEntry = .ok m.entries := by
  have hleaves := (m.isTable_nested).leaves_eq
  rw [Datum.mapM_toEntry_of_isLeaf m.isTable_nested.isNest.isLeaf_of_mem_leaves, hleaves, entries,
    Grid.entries, Grid.toLists_eq, List.map_flatten, List.map_ofFn]
  simp only [Function.comp_def, List.map_ofFn]
  rfl

/-- So they are read as the array of the matrix, whose precision does not matter. -/
theorem ofDatum_nested_eq (m : DenseMatrix Float) (p : Precision) :
    ofDatum p m.nested = ofArray p m.toArray :=
  ofDatum_eq_ofArray m.isTable_nested.extent?_eq (by decide : 2 ≤ maxDepth) m.mapM_toEntry_nested p

/-! ## (2) Building again -/

section Representable

variable {m : DenseMatrix Float} (hm : m.Representable)
include hm

/-- Entries that belong to the precision are not rounded any more. -/
theorem Representable.ofFn_get : ofFn m.precision m.rows_pos m.cols_pos m.grid.get = m := by
  have hentry (i : Fin m.rows) (j : Fin m.cols) :
      Scalar.round m.precision (m.grid.get i j) = m.grid.get i j :=
    Precision.nearest_of_represents (hm i j)
  exact ext_get rfl rfl rfl fun i j => (Grid.get_ofFn _ i j).trans (hentry i j)

/-- **The array of its entries** makes the matrix again. -/
theorem Representable.ofArray_toArray : ofArray m.precision m.toArray = .ok m := by
  show ofList m.precision m.rows m.cols m.grid.entries = .ok m
  rw [Grid.entries, Grid.toLists_eq, ofList_flatten m.precision m.rows_pos m.cols_pos, hm.ofFn_get]

/-- **So do its rows**, as lists of doubles. -/
theorem Representable.ofDatum_nested : ofDatum m.precision m.nested = .ok m := by
  rw [ofDatum_nested_eq, hm.ofArray_toArray]

end Representable

/-! ## (3) Single indices -/

section Walk

variable {S : Type} {a : DenseMatrix S}

/-- The entries of a column from top to bottom. -/
def columnEntries (a : DenseMatrix S) : List S := List.ofFn fun i => a.grid.get i ⟨0, a.cols_pos⟩

/-- A single index shows an entry of a column. -/
theorem getEntry_single (hcols : a.cols = 1) (i : Fin a.rows) :
    a.getEntry (.single (.int (i : Nat))) = .ok (a.grid.get i ⟨0, a.cols_pos⟩) :=
  getEntry_of_denotes (.single hcols i _)

/-- An index behind the last row is refused, and so is every single index of a matrix with more
columns. -/
theorem exists_getEntry_single_eq_error {n : Nat} (h : a.cols ≠ 1 ∨ a.rows ≤ n) :
    ∃ cause, cause.kind = .index ∧ a.getEntry (.single (.int n)) = .error cause := by
  have hdenotes (i : Fin a.rows) (j : Fin a.cols) : ¬ (Key.single (.int n)).Denotes i j := by
    rintro ⟨⟩
    exact h.elim (absurd ‹a.cols = 1›) (Nat.not_le.mpr i.isLt)
  obtain ⟨cause, hlocate, hcause⟩ := exists_locate_eq_error hdenotes
  exact ⟨cause, hcause, getEntry_of_error hlocate⟩

/-- Going through the last rows of a column gives their entries. -/
theorem walk_go_of_column (hcols : a.cols = 1) {n : Nat} (hn : n ≤ a.rows) :
    walk.go a n = a.columnEntries.drop (a.rows - n) := by
  have hlength : a.columnEntries.length = a.rows := List.length_ofFn
  induction n with
  | zero => rw [walk.go, List.drop_of_length_le (by omega)]
  | succ n ih =>
    have hlt : a.rows - (n + 1) < a.columnEntries.length := by omega
    have hentry : a.getEntry (.single (.int (a.rows - (n + 1) : Nat))) =
        .ok a.columnEntries[a.rows - (n + 1)] := by
      simp only [columnEntries, List.getElem_ofFn]
      exact getEntry_single hcols ⟨a.rows - (n + 1), by omega⟩
    rw [walk.go, hentry]
    show a.columnEntries[a.rows - (n + 1)] :: walk.go a n = _
    rw [ih (by omega), List.drop_eq_getElem_cons hlt,
      show a.rows - (n + 1) + 1 = a.rows - n by omega]

/-- **The single indices show the whole of a column.** -/
theorem walk_of_column (hcols : a.cols = 1) : a.walk = a.columnEntries := by
  rw [walk, walk_go_of_column hcols le_rfl, Nat.sub_self, List.drop_zero]

/-- **They show nothing of any other matrix.** -/
theorem walk_of_ne (hcols : a.cols ≠ 1) : a.walk = [] := by
  obtain ⟨k, hk⟩ : ∃ k, a.rows = k + 1 := ⟨a.rows - 1, by have := a.rows_pos; omega⟩
  obtain ⟨cause, -, hrefused⟩ :=
    exists_getEntry_single_eq_error (a := a) (n := a.rows - (k + 1)) (.inl hcols)
  rw [walk, hk, walk.go, hrefused]

/-- A column is made again of what they show. -/
theorem Representable.column_walk {m : DenseMatrix Float} (hm : m.Representable)
    (hcols : m.cols = 1) : column m.precision m.walk = .ok m := by
  have hbuilt := hm.ofFn_get
  have hwalk := walk_of_column hcols
  obtain ⟨p, r, c, hr, hc, g⟩ := m
  obtain rfl : c = 1 := hcols
  have hcell : (fun (i : Fin r) (_ : Fin 1) => g.get i ⟨0, hc⟩) = g.get :=
    funext fun i => funext fun j => congrArg (g.get i) (Subsingleton.elim _ j)
  rw [hwalk, column, columnEntries, List.length_ofFn]
  exact (ofList_ofFn p hr _).trans
    (congrArg Except.ok ((congrArg (ofFn p hr hc) hcell).trans hbuilt))

end Walk

end DenseMatrix

end NewtonRaphson
