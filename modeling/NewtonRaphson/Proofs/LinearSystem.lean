import NewtonRaphson.Proofs.DenseMatrix
import NewtonRaphson.Proofs.Elimination
import NewtonRaphson.Solve

/-! # Solving is exact

Solving a linear system checks its matrix, eliminates, and checks the solution. Over exact scalars
the last check never fails, so all depends on the rank check and on elimination.

* **`DenseMatrix.isSingular_eq`**, **`DenseMatrix.isSingular_eq_false_iff`** — the verdict of the
  rank check, and what it accepts.
* **`solve_of_fits`** — what solving does after the checks of shape and precision.
* **`DenseMatrix.Degenerate`** — a matrix that takes a nonzero column vector to zero.
* **`solve_exact`** — a solution that is returned is the only one; elimination fails exactly on
  degenerate matrices; and with faithful singular values a threshold that is not negative never
  accepts one. -/

namespace NewtonRaphson

/-! ## (1) The rank check -/

section Check

variable {S : Type}

/-- The entries of a square matrix, as a square grid. -/
theorem DenseMatrix.square_of_eq {a : DenseMatrix S} (h : a.cols = a.rows) :
    a.square = .ok (a.grid.castCols h) := by
  rw [square, dif_pos h]

/-- A matrix that is not square is refused. -/
theorem DenseMatrix.square_of_ne {a : DenseMatrix S} (h : a.cols ≠ a.rows) :
    a.square = .error (.notSquare a.shape) := by
  rw [square, dif_neg h]

variable [SingularValues S]

/-- **The verdict of the rank check**, with its conditions written out. -/
theorem DenseMatrix.isSingular_eq (a : DenseMatrix S) (threshold : Threshold S) :
    a.isSingular threshold =
      match a.singularValues with
      | .error cause => .error cause
      | .ok none => .ok true
      | .ok (some v) =>
        if Scalar.eq (largest v a.rows_pos) Scalar.zero then .ok true
        else
          match threshold.value a.rows a.precision with
          | .error cause => .error cause
          | .ok t =>
            .ok (Scalar.le (smallest v a.rows_pos)
              (Scalar.mul .double t (largest v a.rows_pos))) := by
  unfold isSingular
  rcases a.singularValues with cause | _ | v
  · rfl
  · rfl
  · dsimp only [bind, Except.bind, pure, Except.pure]
    split
    · rfl
    · cases threshold.value a.rows a.precision <;> rfl

/-- With a threshold that has a value, the rank check gives a verdict on every square matrix. -/
theorem DenseMatrix.exists_isSingular {a : DenseMatrix S} (threshold : Threshold S)
    (hsquare : a.cols = a.rows) {t : S} (ht : threshold.value a.rows a.precision = .ok t) :
    ∃ deficient, a.isSingular threshold = .ok deficient := by
  rw [isSingular_eq, singularValues, square_of_eq hsquare, ht]
  dsimp only [bind, Except.bind, pure, Except.pure]
  by_cases hfinite : a.isFinite = true
  · rw [if_pos hfinite]
    dsimp only
    split
    · exact ⟨true, rfl⟩
    · exact ⟨_, rfl⟩
  · rw [if_neg hfinite]
    exact ⟨true, rfl⟩

/-- **When the rank check accepts**: the matrix has singular values, the largest is not zero, the
threshold has a value, and the smallest is not within that multiple of the largest. -/
theorem DenseMatrix.isSingular_eq_false_iff {a : DenseMatrix S} {threshold : Threshold S} :
    a.isSingular threshold = .ok false ↔
      ∃ v t, a.singularValues = .ok (some v) ∧ Scalar.eq (largest v a.rows_pos) Scalar.zero =
        false ∧ threshold.value a.rows a.precision = .ok t ∧
        Scalar.le (smallest v a.rows_pos) (Scalar.mul .double t (largest v a.rows_pos)) =
        false := by
  unfold isSingular
  rcases a.singularValues with cause | _ | v
  -- neither a matrix that is refused nor one without singular values is accepted
  · exact ⟨nofun, nofun⟩
  · exact ⟨nofun, nofun⟩
  · show (if Scalar.eq (largest v a.rows_pos) Scalar.zero = true then Except.ok true
        else (threshold.value a.rows a.precision).bind fun t =>
          .ok (Scalar.le (smallest v a.rows_pos) (Scalar.mul .double t (largest v a.rows_pos)))) = _
      ↔ _
    by_cases hzero : Scalar.eq (largest v a.rows_pos) Scalar.zero = true
    · rw [if_pos hzero]
      refine ⟨nofun, ?_⟩
      rintro ⟨_, _, hv, hlarge, -⟩
      cases hv
      rw [hzero] at hlarge
      cases hlarge
    · rw [if_neg hzero]
      rcases threshold.value a.rows a.precision with cause | t
      · refine ⟨nofun, ?_⟩
        rintro ⟨_, _, -, -, ht, -⟩
        cases ht
      · constructor
        · intro h
          exact ⟨v, t, rfl, Bool.eq_false_iff.mpr hzero, rfl, Except.ok.inj h⟩
        · rintro ⟨_, _, hv, -, ht, hle⟩
          cases hv
          cases ht
          exact congrArg Except.ok hle

/-- The rank check accepts only square matrices. -/
theorem DenseMatrix.cols_eq_of_accepted {a : DenseMatrix S} {threshold : Threshold S}
    (h : a.isSingular threshold = .ok false) : a.cols = a.rows := by
  obtain ⟨v, -, hv, -⟩ := DenseMatrix.isSingular_eq_false_iff.mp h
  by_cases hsquare : a.cols = a.rows
  · exact hsquare
  · rw [singularValues, square_of_ne hsquare] at hv
    cases hv

/-! ## (2) The checks before elimination -/

section Checks

variable {threshold : Threshold S} {a b : DenseMatrix S}

/-- A matrix that is not square is refused first. -/
theorem solve_of_cols_ne (h : a.cols ≠ a.rows) :
    solve threshold a b = .error (.notSquare a.shape) := by
  rw [solve, DenseMatrix.square_of_ne h]
  rfl

/-- A right-hand side with a wrong number of rows is refused next. -/
theorem solve_of_rows_ne (hsquare : a.cols = a.rows) (h : b.rows ≠ a.rows) :
    solve threshold a b = .error (.rightHandSide b.rows a.rows) := by
  rw [solve, DenseMatrix.square_of_eq hsquare]
  dsimp only [bind, Except.bind]
  rw [dif_neg h]
  rfl

/-- Different precisions are refused next. -/
theorem solve_of_precision_ne (hsquare : a.cols = a.rows) (hrows : b.rows = a.rows)
    (h : a.precision ≠ b.precision) :
    solve threshold a b = .error (.mixedPrecision .solving a.precision b.precision) := by
  rw [solve, DenseMatrix.square_of_eq hsquare]
  dsimp only [bind, Except.bind]
  rw [dif_pos hrows, if_neg h]
  rfl

/-- What solving does with a matrix and a right-hand side that fit. -/
theorem solve_of_fits (hsquare : a.cols = a.rows) (hrows : b.rows = a.rows)
    (hprecision : a.precision = b.precision) :
    solve threshold a b =
      match a.isSingular threshold with
      | .error cause => .error cause
      | .ok true => .error (.rankDeficient a.shape)
      | .ok false =>
        match Elimination.solve? a.precision (a.grid.castCols hsquare) (b.grid.castRows hrows) with
        | none => .error .zeroPivot
        | some x =>
          if (DenseMatrix.mk a.precision a.rows b.cols a.rows_pos b.cols_pos x).isFinite then
            .ok ⟨a.precision, a.rows, b.cols, a.rows_pos, b.cols_pos, x⟩
          else .error .infiniteSolution := by
  rw [solve, DenseMatrix.square_of_eq hsquare]
  dsimp only [bind, Except.bind]
  rw [dif_pos hrows, if_pos hprecision]
  rcases a.isSingular threshold with cause | _ | _
  · rfl
  · dsimp only
    rw [if_neg Bool.false_ne_true]
    rfl
  · rfl

/-- A system is solved only if its matrix is square, its right-hand side fits, and the rank check
accepts the matrix. -/
theorem accepted_of_solve_eq_ok {x : DenseMatrix S} (h : solve threshold a b = .ok x) :
    a.cols = a.rows ∧ b.rows = a.rows ∧ a.precision = b.precision ∧
      a.isSingular threshold = .ok false := by
  by_cases hsquare : a.cols = a.rows
  · by_cases hrows : b.rows = a.rows
    · by_cases hprecision : a.precision = b.precision
      · rw [solve_of_fits hsquare hrows hprecision] at h
        rcases hcheck : a.isSingular threshold with cause | _ | _
        · rw [hcheck] at h
          cases h
        · exact ⟨hsquare, hrows, hprecision, rfl⟩
        · rw [hcheck] at h
          cases h
      · rw [solve_of_precision_ne hsquare hrows hprecision] at h
        cases h
    · rw [solve_of_rows_ne hsquare hrows] at h
      cases h
  · rw [solve_of_cols_ne hsquare] at h
    cases h

/-- A solution has a row for each unknown and a column for each right-hand side. -/
theorem shape_of_solve_eq_ok {x : DenseMatrix S} (h : solve threshold a b = .ok x) :
    x.shape = (a.rows, b.cols) := by
  obtain ⟨hsquare, hrows, hprecision, haccepted⟩ := accepted_of_solve_eq_ok h
  rw [solve_of_fits hsquare hrows hprecision, haccepted] at h
  dsimp only at h
  rcases hsolve : Elimination.solve? a.precision (a.grid.castCols hsquare)
    (b.grid.castRows hrows) with
    _ | y
  · rw [hsolve] at h
    cases h
  · rw [hsolve] at h
    dsimp only at h
    split at h
    · obtain rfl := Except.ok.inj h
      rfl
    · cases h

end Checks

end Check

/-! ## (3) Exact solutions -/

section Exact

variable {K : Type} [Field K] [LinearOrder K]

/-- A matrix is **degenerate** if it takes a column vector that is not zero to zero. -/
def DenseMatrix.Degenerate [Scalar K] (a : DenseMatrix K) : Prop :=
  ∃ v : DenseMatrix K, (∃ i j, v.grid.get i j ≠ 0) ∧
    a.mul v = .ok (.zeros a.precision a.rows 1 a.rows_pos Nat.one_pos)

/-- A square matrix is degenerate exactly if its entries are. -/
theorem DenseMatrix.degenerate_iff [Scalar K] [ExactScalar K] {p : Precision} {n : ℕ} {hn : 0 < n}
    {g : Grid K n n} :
    (DenseMatrix.mk p n n hn hn g).Degenerate ↔ Elimination.Degenerate g := by
  constructor
  · rintro ⟨v, hv, hmul⟩
    obtain ⟨x, rfl, hzero⟩ := DenseMatrix.mul_eq_ok_iff.mp hmul
    obtain ⟨i, j, hij⟩ := hv
    refine ⟨x.column j, fun h => hij (congrFun h i), ?_⟩
    rw [Elimination.gridProduct_eq_iff.mp hzero j]
    funext l
    simp
  · rintro ⟨v, hv, hzero⟩
    obtain ⟨i, hi⟩ := Function.ne_iff.mp hv
    refine ⟨⟨p, n, 1, hn, Nat.one_pos, .ofFn fun i _ => v i⟩, ⟨i, 0, ?_⟩, ?_⟩
    · rwa [Grid.get_ofFn]
    · refine DenseMatrix.mul_eq_ok_iff.mpr ⟨_, rfl, Elimination.gridProduct_eq_iff.mpr fun j => ?_⟩
      have hcolumn : (Grid.ofFn (c := 1) fun i _ => v i).column j = v :=
        funext fun i => Grid.get_ofFn _ i j
      rw [hcolumn, hzero]
      funext l
      simp

variable [SingularValues K] [ExactScalar K]

/-- Every matrix of exact scalars is finite. -/
theorem DenseMatrix.isFinite_eq_true (a : DenseMatrix K) : a.isFinite = true :=
  DenseMatrix.isFinite_iff.mpr fun _ _ => ExactScalar.isFinite_eq _

/-- Every square matrix of exact scalars has singular values. -/
theorem DenseMatrix.singularValues_mk (p : Precision) {n : ℕ} (hn : 0 < n) (g : Grid K n n) :
    (DenseMatrix.mk p n n hn hn g).singularValues =
      .ok (some (SingularValues.singularValues p g)) := by
  rw [singularValues, square_of_eq rfl, Grid.castCols, Grid.cast_rfl]
  dsimp only [bind, Except.bind]
  rw [if_pos (isFinite_eq_true _)]
  rfl

/-- Solving a system with an accepted matrix is elimination. -/
theorem solve_mk_of_accepted {threshold : Threshold K} {p : Precision} {n k : ℕ} {hn : 0 < n}
    {hk : 0 < k} {g : Grid K n n} {c : Grid K n k}
    (haccepted : (DenseMatrix.mk p n n hn hn g).isSingular threshold = .ok false) :
    solve threshold ⟨p, n, n, hn, hn, g⟩ ⟨p, n, k, hn, hk, c⟩ =
      match Elimination.solve? p g c with
      | none => .error .zeroPivot
      | some x => .ok ⟨p, n, k, hn, hk, x⟩ := by
  rw [solve_of_fits (a := ⟨p, n, n, hn, hn, g⟩) (b := ⟨p, n, k, hn, hk, c⟩) rfl rfl rfl, haccepted]
  dsimp only
  rw [Grid.castCols, Grid.castRows, Grid.cast_rfl, Grid.cast_rfl]
  rcases Elimination.solve? p g c with _ | x
  · rfl
  · dsimp only
    rw [if_pos (DenseMatrix.isFinite_eq_true _)]

/-- **A solution that is returned is the only one.** -/
theorem mul_eq_ok_iff_of_solve {threshold : Threshold K} {a b x : DenseMatrix K}
    (h : solve threshold a b = .ok x) (y : DenseMatrix K) : a.mul y = .ok b ↔ y = x := by
  obtain ⟨hsquare, hrows, hprecision, haccepted⟩ := accepted_of_solve_eq_ok h
  -- with the sizes identified, matrix and right-hand side are grids that elimination takes as they
  -- are
  obtain ⟨p, n, m, hn, hm, g⟩ := a
  obtain ⟨q, r, k, hr, hk, c⟩ := b
  dsimp only at hsquare hrows hprecision
  subst hsquare hrows hprecision
  rw [solve_mk_of_accepted haccepted] at h
  rcases hsolve : Elimination.solve? p g c with _ | z
  · rw [hsolve] at h
    cases h
  · rw [hsolve] at h
    obtain rfl := Except.ok.inj h
    rw [DenseMatrix.mul_eq_ok_iff]
    constructor
    · rintro ⟨z', rfl, hz'⟩
      rw [(Elimination.solve?_eq_some hsolve z').mp hz']
    · rintro rfl
      exact ⟨z, rfl, (Elimination.solve?_eq_some hsolve z).mpr rfl⟩

/-- The smallest of several scalars is at most each of them. -/
theorem smallest_le {n : ℕ} (v : Vector K n) (h : 0 < n) (i : Fin n) : smallest v h ≤ v.get i := by
  have hfold : smallest v h =
      Fin.foldl n (fun m i => if v.get i < m then v.get i else m) (v.get ⟨0, h⟩) := by
    simp only [smallest, ExactScalar.lt_eq, decide_eq_true_eq]
  rw [hfold]
  exact (le_foldl_argmax (L := Kᵒᵈ) OrderDual.toDual v.get (v.get ⟨0, h⟩)).2 i

/-- The largest of several scalars is at least each of them. -/
theorem le_largest {n : ℕ} (v : Vector K n) (h : 0 < n) (i : Fin n) : v.get i ≤ largest v h := by
  have hfold : largest v h =
      Fin.foldl n (fun m i => if m < v.get i then v.get i else m) (v.get ⟨0, h⟩) := by
    simp only [largest, ExactScalar.lt_eq, decide_eq_true_eq]
  rw [hfold]
  exact (le_foldl_argmax (fun x => x) v.get (v.get ⟨0, h⟩)).2 i

variable [IsStrictOrderedRing K]

/-- Elimination fails on a square matrix exactly if the matrix is degenerate. -/
theorem solve?_square_eq_none_iff {a : DenseMatrix K} {g : Grid K a.rows a.rows}
    (hg : a.square = .ok g) {k : ℕ} (c : Grid K a.rows k) :
    Elimination.solve? a.precision g c = none ↔ a.Degenerate := by
  by_cases hsquare : a.cols = a.rows
  · rw [DenseMatrix.square_of_eq hsquare] at hg
    obtain rfl := Except.ok.inj hg
    obtain ⟨p, n, m, hn, hm, g⟩ := a
    dsimp only at hsquare
    subst hsquare
    rw [DenseMatrix.degenerate_iff, Elimination.solve?_eq_none_iff]
    rw [Grid.castCols, Grid.cast_rfl]
  · rw [DenseMatrix.square_of_ne hsquare] at hg
    cases hg

/-! ## (4) The rank check and the zero pivot -/

/-- The singular values of a matrix are **faithful** if none is negative and one is zero exactly if
the matrix is degenerate. -/
def DenseMatrix.FaithfulSingularValues (a : DenseMatrix K) : Prop :=
  ∀ v, a.singularValues = .ok (some v) →
    (∀ i, 0 ≤ v.get i) ∧ ((∃ i, v.get i = 0) ↔ a.Degenerate)

/-- A threshold that is not negative accepts no degenerate matrix. -/
theorem not_degenerate_of_accepted {a : DenseMatrix K} {threshold : Threshold K} {t : K}
    (hvalues : a.FaithfulSingularValues) (ht : threshold.value a.rows a.precision = .ok t)
    (hnonneg : 0 ≤ t) (haccepted : a.isSingular threshold = .ok false) : ¬ a.Degenerate := by
  obtain ⟨v, t', hv, -, ht', hsmall⟩ := DenseMatrix.isSingular_eq_false_iff.mp haccepted
  obtain rfl : t' = t := Except.ok.inj (ht'.symm.trans ht)
  obtain ⟨hvnonneg, hzero⟩ := hvalues v hv
  have hlarge : 0 ≤ largest v a.rows_pos :=
    (hvnonneg ⟨0, a.rows_pos⟩).trans (le_largest v a.rows_pos ⟨0, a.rows_pos⟩)
  rw [ExactScalar.le_eq, decide_eq_false_iff_not, not_le, ExactScalar.mul_eq] at hsmall
  have hpos : 0 < smallest v a.rows_pos := (mul_nonneg hnonneg hlarge).trans_lt hsmall
  intro hdegenerate
  obtain ⟨i, hi⟩ := hzero.mpr hdegenerate
  -- a singular value that is zero would bound the smallest one
  exact absurd (hi ▸ smallest_le v a.rows_pos i) (not_le.mpr hpos)

/-- Solving a system with an accepted matrix and a right-hand side that fits either returns a
solution or meets a zero pivot, and the latter exactly if the matrix is degenerate. -/
theorem solve_cases {threshold : Threshold K} {a b : DenseMatrix K}
    (haccepted : a.isSingular threshold = .ok false) (hrows : b.rows = a.rows)
    (hprecision : a.precision = b.precision) :
    (a.Degenerate ∧ solve threshold a b = .error .zeroPivot) ∨
      (¬ a.Degenerate ∧ ∃ x, solve threshold a b = .ok x) := by
  have hsquare : a.cols = a.rows := DenseMatrix.cols_eq_of_accepted haccepted
  obtain ⟨p, n, m, hn, hm, g⟩ := a
  obtain ⟨q, r, k, hr, hk, c⟩ := b
  dsimp only at hsquare hrows hprecision
  subst hsquare hrows hprecision
  rw [solve_mk_of_accepted haccepted, DenseMatrix.degenerate_iff,
    ← Elimination.solve?_eq_none_iff (p := p) (b := c)]
  rcases Elimination.solve? p g c with _ | x
  · exact .inl ⟨rfl, rfl⟩
  · exact .inr ⟨nofun, _, rfl⟩

/-- **Solving is exact.** Over exact scalars: a solution that is returned has the size of the
right-hand side, solves the system, and is the only matrix that does; elimination fails exactly if
the matrix is degenerate, and then, if the rank check had accepted the matrix, solving reports it as
singular, and returns a solution otherwise; and if the singular values are faithful, then with a
threshold that is not negative an accepted matrix never meets a zero pivot, but is solved. -/
theorem solve_exact (threshold : Threshold K) (a b : DenseMatrix K) :
    (∀ x, solve threshold a b = .ok x →
      x.shape = (a.rows, b.cols) ∧ a.mul x = .ok b ∧ ∀ y, a.mul y = .ok b → y = x) ∧
    (∀ g, a.square = .ok g → ∀ (k : ℕ) (c : Grid K a.rows k),
      Elimination.solve? a.precision g c = none ↔ a.Degenerate) ∧
    (a.isSingular threshold = .ok false → b.rows = a.rows → a.precision = b.precision →
      ((∃ cause, solve threshold a b = .error cause ∧ cause.message? = some "Singular matrix") ↔
        a.Degenerate) ∧
      ((∃ x, solve threshold a b = .ok x) ↔ ¬ a.Degenerate)) ∧
    (a.FaithfulSingularValues → ∀ t, threshold.value a.rows a.precision = .ok t → 0 ≤ t →
      a.isSingular threshold = .ok false →
      solve threshold a b ≠ .error .zeroPivot ∧
        (b.rows = a.rows → a.precision = b.precision → ∃ x, solve threshold a b = .ok x)) := by
  refine ⟨?_, ?_, ?_, ?_⟩
  · intro x hx
    have hsolves : a.mul x = .ok b := (mul_eq_ok_iff_of_solve hx x).mpr rfl
    exact ⟨shape_of_solve_eq_ok hx, hsolves, fun y hy => (mul_eq_ok_iff_of_solve hx y).mp hy⟩
  · intro g hg k c
    exact solve?_square_eq_none_iff hg c
  · intro haccepted hrows hprecision
    rcases solve_cases haccepted hrows hprecision with ⟨hdegenerate, hfails⟩ | ⟨hregular, x, hx⟩
    · rw [hfails]
      exact ⟨⟨fun _ => hdegenerate, fun _ => ⟨_, rfl, rfl⟩⟩, ⟨nofun, fun h => absurd hdegenerate h⟩⟩
    · rw [hx]
      exact ⟨⟨nofun, fun h => absurd h hregular⟩, ⟨fun _ => hregular, fun _ => ⟨x, rfl⟩⟩⟩
  · intro hvalues t ht hnonneg haccepted
    have hregular : ¬ a.Degenerate := not_degenerate_of_accepted hvalues ht hnonneg haccepted
    have hsquare : a.cols = a.rows := DenseMatrix.cols_eq_of_accepted haccepted
    by_cases hrows : b.rows = a.rows
    · by_cases hprecision : a.precision = b.precision
      · rcases solve_cases haccepted hrows hprecision with ⟨hdegenerate, -⟩ | ⟨-, x, hx⟩
        · exact absurd hdegenerate hregular
        · rw [hx]
          exact ⟨nofun, fun _ _ => ⟨x, rfl⟩⟩
      · rw [solve_of_precision_ne hsquare hrows hprecision]
        exact ⟨nofun, fun _ h => absurd h hprecision⟩
    · rw [solve_of_rows_ne hsquare hrows]
      exact ⟨nofun, fun h => absurd h hrows⟩

end Exact

/-! ### A system that needs a row exchange -/

/-- Singular values of a grid with a single entry in each row and column: the absolute values of the
entries. -/
@[reducible] def monomialSingularValues : SingularValues ℚ where
  singularValues p _ g := .ofFn fun i => DenseMatrix.sum p fun j => Scalar.abs (g.get i j)

/-- The matrix with the rows `(0, 2)` and `(3, 0)`. -/
def exchange : DenseMatrix ℚ :=
  ⟨.double, 2, 2, Nat.two_pos, Nat.two_pos,
    .ofFn fun i j => if i = j then 0 else if i < j then 2 else 3⟩

/-- The column `(4, 9)`. -/
def fourAndNine : DenseMatrix ℚ :=
  ⟨.double, 2, 1, Nat.two_pos, Nat.one_pos, .ofFn fun i _ => if i.val = 0 then 4 else 9⟩

/-- The first pivot of this system is in its second row; it is accepted with the threshold zero, and
its solution is the only one. -/
theorem solve_exact_of_exchange :
    ∃ x, @solve ℚ monomialSingularValues (.given 0) exchange fourAndNine = .ok x ∧
      exchange.mul x = .ok fourAndNine ∧ ∀ y, exchange.mul y = .ok fourAndNine → y = x := by
  obtain ⟨hsound, hfails, -, hsolved⟩ :=
    @solve_exact ℚ _ _ monomialSingularValues _ _ (.given 0) exchange fourAndNine
  have hregular : ¬ exchange.Degenerate := by
    intro hdegenerate
    exact absurd ((hfails _ rfl 1 fourAndNine.grid).mpr hdegenerate) (by decide +kernel)
  have hdefined : @DenseMatrix.singularValues ℚ monomialSingularValues exchange =
      .ok (some (monomialSingularValues.singularValues .double exchange.grid)) :=
    @DenseMatrix.singularValues_mk ℚ _ _ monomialSingularValues _ .double 2 Nat.two_pos
      exchange.grid
  have hvalues : @DenseMatrix.FaithfulSingularValues ℚ _ _ monomialSingularValues exchange := by
    intro v hv
    rw [hdefined] at hv
    obtain rfl := Option.some.inj (Except.ok.inj hv)
    refine ⟨by decide +kernel, ⟨fun hzero => absurd hzero ?_, fun h => absurd h hregular⟩⟩
    decide +kernel
  have haccepted : @DenseMatrix.isSingular ℚ monomialSingularValues exchange (.given 0) =
      .ok false :=
    (@DenseMatrix.isSingular_eq_false_iff ℚ monomialSingularValues _ _).mpr
      ⟨_, 0, hdefined, by decide +kernel, rfl, by decide +kernel⟩
  obtain ⟨-, hx⟩ := hsolved hvalues 0 rfl (le_refl 0) haccepted
  obtain ⟨x, hx⟩ := hx rfl rfl
  obtain ⟨-, hmul, hunique⟩ := hsound x hx
  exact ⟨x, hx, hmul, hunique⟩

end NewtonRaphson
