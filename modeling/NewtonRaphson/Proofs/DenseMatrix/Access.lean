import NewtonRaphson.DenseMatrix.Access

/-! # Keys and the cells they denote

Which keys a matrix accepts depends on its size only, and two cells of a matrix never overlap.

* **`Key.Denotes key i j`** — the key denotes the cell in row `i` and column `j`.
* **`DenseMatrix.locate_eq_ok_iff`** — the keys that denote a cell are those that are accepted;
  **`DenseMatrix.exists_locate_eq_error`** — all others are refused, for an index that is wrong.
* **`DenseMatrix.getEntry_of_denotes`**, **`DenseMatrix.setEntry_of_denotes`** — reading and writing
  at a key that denotes a cell; **`DenseMatrix.getEntry_set`** — reading a matrix in which one entry
  was replaced. -/

namespace NewtonRaphson

/-- A key **denotes** a cell of a matrix with `rows` rows and `cols` columns: a pair of integers
denotes the cell in this row and this column, and in a matrix with one column an integer denotes the
cell in this row. -/
inductive Key.Denotes {rows cols : Nat} : Key → Fin rows → Fin cols → Prop
  | pair (i : Fin rows) (j : Fin cols) : Denotes (.tuple [.int (i : Nat), .int (j : Nat)]) i j
  | single (hcols : cols = 1) (i : Fin rows) (j : Fin cols) : Denotes (.single (.int (i : Nat))) i j

/-- The integer of a position denotes it. -/
theorem Axis.position_int (axis : Axis) {bound : Nat} (i : Fin bound) :
    axis.position bound (.int (i : Nat)) = .ok i := by
  have hrange : 0 ≤ ((i : Nat) : Int) ∧ ((i : Nat) : Int) < bound := by omega
  rw [position, dif_pos hrange]
  rfl

/-- Every other datum is a wrong index. -/
theorem Axis.position_cases (axis : Axis) (bound : Nat) (d : Datum) :
    (∃ i : Fin bound, d = .int (i : Nat) ∧ axis.position bound d = .ok i) ∨
      ∃ cause, axis.position bound d = .error cause ∧ cause.kind = .index := by
  cases d with
  | int n =>
    by_cases hrange : 0 ≤ n ∧ n < bound
    · obtain ⟨k, rfl⟩ := Int.eq_ofNat_of_zero_le hrange.1
      exact .inl ⟨⟨k, by omega⟩, rfl, axis.position_int ⟨k, by omega⟩⟩
    · exact .inr ⟨_, dif_neg hrange, rfl⟩
  | null | bool | real | text | list | record => exact .inr ⟨_, rfl, rfl⟩

namespace DenseMatrix

section Keys

variable {S : Type} {a : DenseMatrix S} {key : Key} {i : Fin a.rows} {j : Fin a.cols}

/-! ## (1) Which keys are accepted -/

/-- A key that denotes a cell is accepted. -/
theorem locate_of_denotes (h : key.Denotes i j) : a.locate key = .ok (i, j) := by
  cases h with
  | pair =>
    show (do
      let i ← Axis.row.position a.rows (.int (i : Nat))
      let j ← Axis.column.position a.cols (.int (j : Nat))
      return (i, j)) = Except.ok (i, j)
    rw [Axis.position_int, Axis.position_int]
    rfl
  | single hcols =>
    have hj : (⟨0, a.cols_pos⟩ : Fin a.cols) = j := Fin.ext (by omega)
    rw [locate, if_pos hcols, Axis.position_int, ← hj]
    rfl

/-- Every other key is refused, for an index that is wrong. -/
theorem locate_cases (a : DenseMatrix S) (key : Key) :
    (∃ i j, key.Denotes i j ∧ a.locate key = .ok (i, j)) ∨
      ∃ cause, a.locate key = .error cause ∧ cause.kind = .index := by
  unfold locate
  split
  · -- a pair: the row is looked at before the column
    rename_i d e
    rcases Axis.row.position_cases a.rows d with ⟨i, rfl, hrow⟩ | ⟨cause, hrow, hcause⟩
    · rcases Axis.column.position_cases a.cols e with ⟨j, rfl, hcol⟩ | ⟨cause, hcol, hcause⟩
      · exact .inl ⟨i, j, .pair i j, by rw [hrow, hcol]; rfl⟩
      · exact .inr ⟨cause, by rw [hrow, hcol]; rfl, hcause⟩
    · exact .inr ⟨cause, by rw [hrow]; rfl, hcause⟩
  · exact .inr ⟨_, rfl, rfl⟩
  · -- a single index, for a column only
    rename_i d
    split
    · rename_i hcols
      rcases Axis.row.position_cases a.rows d with ⟨i, rfl, hrow⟩ | ⟨cause, hrow, hcause⟩
      · exact .inl ⟨i, _, .single hcols i _, by rw [hrow]; rfl⟩
      · exact .inr ⟨cause, by rw [hrow]; rfl, hcause⟩
    · exact .inr ⟨_, rfl, rfl⟩

/-- **The keys that a matrix accepts** are those that denote a cell. -/
theorem locate_eq_ok_iff : a.locate key = .ok (i, j) ↔ key.Denotes i j := by
  refine ⟨fun h => ?_, locate_of_denotes⟩
  rcases a.locate_cases key with ⟨i', j', hdenotes, hlocate⟩ | ⟨cause, hlocate, -⟩
  · rw [hlocate] at h
    cases h
    exact hdenotes
  · rw [hlocate] at h
    cases h

/-- **A key that denotes no cell** is refused. -/
theorem exists_locate_eq_error (h : ∀ (i : Fin a.rows) (j : Fin a.cols), ¬ key.Denotes i j) :
    ∃ cause, a.locate key = .error cause ∧ cause.kind = .index :=
  (a.locate_cases key).resolve_left fun ⟨i, j, hdenotes, _⟩ => h i j hdenotes

/-- No key denotes two cells. -/
theorem denotes_unique {i' : Fin a.rows} {j' : Fin a.cols} (h : key.Denotes i j)
    (h' : key.Denotes i' j') : i' = i ∧ j' = j :=
  Prod.mk.inj (Except.ok.inj ((locate_of_denotes h').symm.trans (locate_of_denotes h)))

/-! ## (2) Reading and writing -/

/-- The entry at a key is that of the cell. -/
theorem getEntry_of_denotes (h : key.Denotes i j) : a.getEntry key = .ok (a.grid.get i j) := by
  rw [getEntry, locate_of_denotes h]
  rfl

/-- A key that is refused is refused by reading. -/
theorem getEntry_of_error {cause : Fault} (h : a.locate key = .error cause) :
    a.getEntry key = .error cause := by
  rw [getEntry, h]
  rfl

/-- Whether a key is accepted does not depend on the entries. -/
theorem locate_withGrid (a : DenseMatrix S) (g : Grid S a.rows a.cols) (key : Key) :
    (a.withGrid g).locate key = a.locate key := rfl

/-- **Reading a matrix in which one entry was replaced**: the keys of its cell give the new entry,
all others what they gave, and if it was a refusal. -/
theorem getEntry_set (a : DenseMatrix S) (i : Fin a.rows) (j : Fin a.cols) (x : S) (key : Key) :
    (key.Denotes i j → (a.withGrid (a.grid.set i j x)).getEntry key = .ok x) ∧
      (¬ key.Denotes i j → (a.withGrid (a.grid.set i j x)).getEntry key = a.getEntry key) := by
  have hget : ∀ i' j', key.Denotes i' j' →
      (a.withGrid (a.grid.set i j x)).getEntry key = .ok ((a.grid.set i j x).get i' j') :=
    fun _ _ h => getEntry_of_denotes h
  constructor
  · intro h
    rw [hget i j h, Grid.get_set, if_pos ⟨rfl, rfl⟩]
  · intro h
    rcases hlocate : a.locate key with cause | ⟨i', j'⟩
    · have hset : (a.withGrid (a.grid.set i j x)).locate key = .error cause :=
        (locate_withGrid a _ key).trans hlocate
      rw [getEntry_of_error hlocate, getEntry_of_error hset]
    · -- the key denotes another cell
      have h' := locate_eq_ok_iff.mp hlocate
      have hne : ¬ (i' = i ∧ j' = j) := by
        rintro ⟨rfl, rfl⟩
        exact h h'
      rw [hget i' j' h', getEntry_of_denotes h', Grid.get_set, if_neg hne]

end Keys

section Writing

variable {a : DenseMatrix Float} {key : Key}

/-- A key that is refused is refused by writing too, whatever the value is. -/
theorem setEntry_of_error {cause : Fault} (h : a.locate key = .error cause) (value : Datum) :
    a.setEntry key value = .error cause := by
  rw [setEntry, h]
  rfl

/-- The matrix in which an entry was **written**, rounded to the precision. -/
def written (a : DenseMatrix Float) (i : Fin a.rows) (j : Fin a.cols) (x : Float) :
    DenseMatrix Float :=
  a.withGrid (a.grid.set i j (a.precision.nearest x))

/-- **Writing at a key that denotes a cell**: a value that is no entry is refused, any other is
written. -/
theorem setEntry_of_denotes {i : Fin a.rows} {j : Fin a.cols} (h : key.Denotes i j)
    (value : Datum) : a.setEntry key value = value.toEntry.map (a.written i j) := by
  rw [setEntry, locate_of_denotes h]
  cases value.toEntry <;> rfl

end Writing

end DenseMatrix

end NewtonRaphson
