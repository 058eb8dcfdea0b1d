import NewtonRaphson.Proofs.LinearSystem
import NewtonRaphson.SingularValues.Jacobi

/-! # Right-hand sides are solved independently

Elimination carries all right-hand sides along at once, but which rows it exchanges and which
multiples it takes away is read off the matrix alone. So choosing columns before elimination comes
to the same as choosing them afterwards, over any scalars, whether or not results are finite. Only
the check for finiteness joins the columns.

* **`Grid.choose`** — the columns of a grid that a map of indices names.
* **`Elimination.solve?_choose`** — choosing columns commutes with elimination.
* **`DenseMatrix.columnAt`** — one column of a matrix, as a matrix.
* **`solve_cases_of_columns`** — how a system is solved and how its columns are.
* **`solve_columns`** — a system is solved exactly if it is for each column, column by column, and
  is refused as one of its columns is. -/

namespace NewtonRaphson

variable {S : Type}

/-! ## (1) Choosing columns -/

section Choose

variable {r k l : Nat}

/-- The grid with the **chosen** columns: its column `j` is the column `choice j`. -/
def Grid.choose (a : Grid S r k) (choice : Fin l → Fin k) : Grid S r l :=
  .ofFn fun i j => a.get i (choice j)

@[simp] theorem Grid.get_choose (a : Grid S r k) (choice : Fin l → Fin k) (i : Fin r) (j : Fin l) :
    (a.choose choice).get i j = a.get i (choice j) := by
  simp [choose]

@[simp] theorem Grid.castRows_choose {r' : Nat} (a : Grid S r k) (choice : Fin l → Fin k)
    (h : r = r') : (a.choose choice).castRows h = (a.castRows h).choose choice :=
  ext fun i j => by simp

end Choose

/-! ## (2) Elimination -/

namespace Elimination

variable {n k l : Nat} (choice : Fin l → Fin k)

/-- Rows are exchanged in the chosen columns as in all of them. -/
theorem swapRows_choose (b : Grid S n k) (p q : Fin n) :
    (b.choose choice).swapRows p q = (b.swapRows p q).choose choice :=
  Grid.ext fun i j => by simp

/-- So is a row of unknowns put on top. -/
theorem onTop_choose (first : Fin k → S) (x : Grid S n k) :
    onTop (fun j => first (choice j)) (x.choose choice) = (onTop first x).choose choice := by
  refine Grid.ext fun i j => ?_
  cases i using Fin.cases with
  | zero => simp [onTop]
  | succ i => simp [onTop]

variable [Scalar S] (p : Precision)

/-- The multiples that are taken away depend on the matrix alone. -/
theorem reducedSides_choose (a : Grid S (n + 1) (n + 1)) (b : Grid S (n + 1) k) :
    reducedSides p a (b.choose choice) = (reducedSides p a b).choose choice :=
  Grid.ext fun i j => by simp [reducedSides]

/-- The first unknown of a column depends on this column alone. -/
theorem firstUnknown_choose (a : Grid S (n + 1) (n + 1)) (b : Grid S (n + 1) k) (x : Grid S n k) :
    firstUnknown p a (b.choose choice) (x.choose choice) =
      fun j => firstUnknown p a b x (choice j) := by
  funext j
  simp [firstUnknown]

/-- **Choosing columns commutes with elimination**: the chosen right-hand sides have the chosen
solutions, and none where there are none. -/
theorem solve?_choose (a : Grid S n n) (b : Grid S n k) :
    solve? p a (b.choose choice) = (solve? p a b).map (·.choose choice) := by
  induction n with
  | zero => rfl
  | succ n ih =>
    simp only [solve?, swapRows_choose, reducedSides_choose]
    -- the pivot is that of the matrix, so both fail or both go on
    split
    · rfl
    · rw [ih, Option.map_map, Option.map_map]
      congr 1
      funext x
      simp only [Function.comp_apply, firstUnknown_choose, onTop_choose]

end Elimination

/-! ## (3) One column -/

namespace DenseMatrix

/-- The **column** `j` of a matrix, as a matrix with one column. -/
def columnAt (b : DenseMatrix S) (j : Fin b.cols) : DenseMatrix S :=
  ⟨b.precision, b.rows, 1, b.rows_pos, Nat.one_pos, b.grid.choose fun _ => j⟩

theorem get_columnAt (b : DenseMatrix S) (j : Fin b.cols) (i : Fin b.rows) (l : Fin 1) :
    (b.columnAt j).grid.get i l = b.grid.get i j :=
  Grid.get_choose b.grid _ i l

/-- A matrix is finite exactly if its columns are. -/
theorem isFinite_iff_columnAt [Scalar S] {x : DenseMatrix S} :
    x.isFinite = true ↔ ∀ j, (x.columnAt j).isFinite = true := by
  simp only [isFinite_iff]
  constructor
  · intro h j i l
    exact (get_columnAt x j i l).symm ▸ h i j
  · intro h i j
    exact get_columnAt x j i 0 ▸ h j i (0 : Fin 1)

end DenseMatrix

variable [SingularValues S] (threshold : Threshold S)

/-! ## (4) Systems and their columns -/

/-- **How a system is solved and how its columns are.** Either all are refused for the same cause,
before their solutions are looked at; or elimination has solutions for all of them, and each is
returned if it is finite. -/
theorem solve_cases_of_columns (a b : DenseMatrix S) :
    (∃ cause, solve threshold a b = .error cause ∧ ∀ j,
      solve threshold a (b.columnAt j) = .error cause) ∨
      ∃ (x : DenseMatrix S) (hcols : b.cols = x.cols),
        solve threshold a b = (if x.isFinite then .ok x else .error .infiniteSolution) ∧
        ∀ j, solve threshold a (b.columnAt j) =
          if (x.columnAt (j.cast hcols)).isFinite then .ok (x.columnAt (j.cast hcols))
          else .error .infiniteSolution := by
  by_cases hsquare : a.cols = a.rows
  case neg => exact .inl ⟨_, solve_of_cols_ne hsquare, fun j => solve_of_cols_ne hsquare⟩
  by_cases hrows : b.rows = a.rows
  case neg =>
    exact .inl ⟨_, solve_of_rows_ne hsquare hrows, fun j => solve_of_rows_ne hsquare hrows⟩
  by_cases hprecision : a.precision = b.precision
  case neg =>
    exact .inl ⟨_, solve_of_precision_ne hsquare hrows hprecision,
      fun j => solve_of_precision_ne hsquare hrows hprecision⟩
  have hcolumn (j : Fin b.cols) :=
    @solve_of_fits S _ threshold a (b.columnAt j) hsquare hrows hprecision
  rw [solve_of_fits hsquare hrows hprecision]
  simp only [hcolumn]
  -- the rank check looks at the matrix alone
  rcases a.isSingular threshold with cause | _ | _
  case error => exact .inl ⟨cause, rfl, fun j => rfl⟩
  case ok.true => exact .inl ⟨_, rfl, fun j => rfl⟩
  have hsolve (j : Fin b.cols) : Elimination.solve? a.precision (a.grid.castCols hsquare)
      ((b.columnAt j).grid.castRows hrows) =
      (Elimination.solve? a.precision (a.grid.castCols hsquare) (b.grid.castRows hrows)).map
        (·.choose fun _ => j) := by
    rw [← Elimination.solve?_choose, ← Grid.castRows_choose]
    rfl
  simp only [hsolve]
  rcases Elimination.solve? a.precision (a.grid.castCols hsquare) (b.grid.castRows hrows) with _ | x
  · exact .inl ⟨_, rfl, fun j => rfl⟩
  · exact .inr ⟨⟨a.precision, a.rows, b.cols, a.rows_pos, b.cols_pos, x⟩, rfl, rfl, fun j => rfl⟩

/-- A system that fits, with a threshold that can be used, is refused only as singular. -/
theorem kind_of_solve {a b : DenseMatrix S} (hsquare : a.cols = a.rows) (hrows : b.rows = a.rows)
    (hprecision : a.precision = b.precision) (t : S)
    (ht : threshold.value a.rows a.precision = .ok t) (cause : Fault)
    (h : solve threshold a b = .error cause) : cause.kind = .singular := by
  rw [solve_of_fits hsquare hrows hprecision] at h
  obtain ⟨deficient, hcheck⟩ := DenseMatrix.exists_isSingular threshold hsquare ht
  rw [hcheck] at h
  cases deficient with
  | true =>
    obtain rfl := Except.error.inj h
    rfl
  | false =>
    dsimp only at h
    split at h
    · obtain rfl := Except.error.inj h
      rfl
    · split at h
      · cases h
      · obtain rfl := Except.error.inj h
        rfl

/-- **Right-hand sides are solved independently**, over any scalars. For a threshold, a matrix and
right-hand sides: they are solved at once exactly if each column is solved by itself; then each
column of the solution is the solution of the column; and if they are refused, one of the columns is
refused for the same cause, which is that of a singular system where the matrix is square, the
right-hand sides fit it, and the threshold can be used. -/
theorem solve_columns (a b : DenseMatrix S) :
    ((∃ x, solve threshold a b = .ok x) ↔ ∀ j, ∃ y, solve threshold a (b.columnAt j) = .ok y) ∧
    (∀ x, solve threshold a b = .ok x → ∃ hcols : b.cols = x.cols,
      ∀ j, solve threshold a (b.columnAt j) = .ok (x.columnAt (j.cast hcols))) ∧
    (∀ cause, solve threshold a b = .error cause → ∃ j,
      solve threshold a (b.columnAt j) = .error cause) ∧
    (a.cols = a.rows → b.rows = a.rows → a.precision = b.precision →
      ∀ t, threshold.value a.rows a.precision = .ok t →
      ∀ cause, solve threshold a b = .error cause → cause.kind = .singular) := by
  have hkind (hsquare : a.cols = a.rows) (hrows : b.rows = a.rows)
      (hprecision : a.precision = b.precision) :=
    kind_of_solve threshold hsquare hrows hprecision
  rcases solve_cases_of_columns threshold a b with ⟨cause, hb, hcolumns⟩ | ⟨x, hcols, hb, hcolumns⟩
  · -- there is a first column, and it is refused as all of them are
    simp only [hb, hcolumns]
    refine ⟨⟨nofun, fun h => absurd (h ⟨0, b.cols_pos⟩) nofun⟩, nofun, ?_, ?_⟩
    · rintro _ ⟨⟩
      exact ⟨⟨0, b.cols_pos⟩, rfl⟩
    · simpa only [hb] using hkind
  · by_cases hfinite : x.isFinite = true
    · have hall := DenseMatrix.isFinite_iff_columnAt.mp hfinite
      rw [if_pos hfinite] at hb
      simp only [hb, hcolumns, hall, if_true]
      refine ⟨⟨fun _ j => ⟨_, rfl⟩, fun _ => ⟨x, rfl⟩⟩, ?_, nofun, nofun⟩
      rintro _ ⟨⟩
      exact ⟨hcols, fun j => rfl⟩
    · -- a column that is not finite is refused by itself, too
      obtain ⟨j, hj⟩ := not_forall.mp (mt DenseMatrix.isFinite_iff_columnAt.mpr hfinite)
      have hrefused : solve threshold a (b.columnAt (j.cast hcols.symm)) =
          .error .infiniteSolution := by
        rw [hcolumns]
        exact if_neg hj
      rw [if_neg hfinite] at hb
      refine ⟨?_, ?_, ?_, hkind⟩
      · rw [hb]
        refine ⟨nofun, fun h => ?_⟩
        obtain ⟨y, hy⟩ := h (j.cast hcols.symm)
        rw [hrefused] at hy
        cases hy
      · rw [hb]
        exact nofun
      · rw [hb]
        rintro _ ⟨⟩
        exact ⟨_, hrefused⟩

/-! ### Two right-hand sides, one of which overflows -/

/-- The matrix with the small number `1e-10`. -/
def small : DenseMatrix Float := .ofFn .double Nat.one_pos Nat.one_pos fun (_ _ : Fin 1) => 1e-10

/-- One row of two numbers, as two right-hand sides. -/
def twoSides (x y : Float) : DenseMatrix Float :=
  .ofFn .double Nat.one_pos Nat.two_pos fun (_ : Fin 1) (j : Fin 2) => if j = 0 then x else y

/-- The right-hand sides one and two are solved at once and one by one. With `1e308` in place of two
both are refused at once, as one of them is. -/
theorem solve_columns_of_twoSides :
    (∃ (x : DenseMatrix Float) (hcols : 2 = x.cols),
      solve (.given 0.0) small (twoSides 1.0 2.0) = .ok x ∧
      ∀ j : Fin 2, solve (.given 0.0) small ((twoSides 1.0 2.0).columnAt j) =
      .ok (x.columnAt (j.cast hcols))) ∧
    ∃ cause j, solve (.given 0.0) small (twoSides 1.0 1e308) = .error cause ∧
      solve (.given 0.0) small ((twoSides 1.0 1e308).columnAt j) = .error cause ∧
      cause.kind = .singular := by
  have hsolved : (solve (.given 0.0) small (twoSides 1.0 2.0)).isOk = true := by decide +kernel
  have hrefused : (solve (.given 0.0) small (twoSides 1.0 1e308)).isOk = false := by decide +kernel
  obtain ⟨-, hcolumns, -⟩ := solve_columns (.given 0.0) small (twoSides 1.0 2.0)
  obtain ⟨-, -, hcolumn, hkind⟩ := solve_columns (.given 0.0) small (twoSides 1.0 1e308)
  constructor
  · rcases hx : solve (.given 0.0) small (twoSides 1.0 2.0) with cause | x
    · rw [hx] at hsolved
      cases hsolved
    · obtain ⟨hcols, hone⟩ := hcolumns x hx
      exact ⟨x, hcols, rfl, hone⟩
  · rcases hx : solve (.given 0.0) small (twoSides 1.0 1e308) with cause | x
    · obtain ⟨j, hj⟩ := hcolumn cause hx
      exact ⟨cause, j, rfl, hj, hkind rfl rfl rfl 0.0 rfl cause hx⟩
    · rw [hx] at hrefused
      cases hrefused

end NewtonRaphson
