import NewtonRaphson.DenseMatrix.Access
import NewtonRaphson.DenseMatrix.Reading
import NewtonRaphson.Operand
import NewtonRaphson.Proofs.DenseMatrix
import NewtonRaphson.Proofs.Newton.Statuses
import NewtonRaphson.Proofs.Precision
import NewtonRaphson.SingularValues.Jacobi

/-! # Matrices whose entries belong to their precision

No matrix checks its entries: they belong to its precision because every operation rounds what it
computes.

* **`DenseMatrix.Representable`** — each entry is a number that the precision represents.
* **`DenseMatrix.Faithful p m`** — `m` has the precision `p`, and its entries belong to it.
* **`DenseMatrix.faithful_of_ofDatum`**, **`Operator.faithful_of_apply`**, **`faithful_of_solve`** —
  matrices from data, the results of the operators, and solutions are faithful to the precision they
  are made in, whatever the entries of the operands are.
* **`DenseMatrix.Follows a m`** — what an operation that overwrites `a` leaves in its place:
  precision and shape stay. -/

namespace NewtonRaphson

/-- What rounding to a precision gives belongs to it; a sum is rounded after each of its terms. -/
theorem Precision.represents_sum (p : Precision) {n : Nat} (f : Fin n → Float) :
    p.Represents (DenseMatrix.sum p f) := by
  unfold DenseMatrix.sum
  cases n with
  | zero => exact p.represents_zero
  | succ n =>
    rw [Fin.foldl_succ_last]
    exact p.represents_nearest _

/-- The unknowns that elimination gives belong to the precision it is carried out in. -/
theorem Elimination.represents_of_solve? {p : Precision} {n k : Nat} {a : Grid Float n n}
    {b x : Grid Float n k} (h : solve? p a b = some x) (i : Fin n) (j : Fin k) :
    p.Represents (x.get i j) := by
  induction n with
  | zero => exact i.elim0
  | succ n ih =>
    unfold solve? at h
    dsimp only at h
    split at h
    · cases h
    · obtain ⟨y, hy, rfl⟩ := Option.map_eq_some_iff.mp h
      rw [onTop, Grid.get_ofFn]
      -- the first unknown is a quotient, the others are those of the smaller system
      cases i using Fin.cases with
      | zero => exact p.represents_nearest _
      | succ i => exact ih hy i

namespace DenseMatrix

/-- A matrix whose entries **belong to its precision**. -/
def Representable (m : DenseMatrix Float) : Prop :=
  ∀ i j, m.precision.Represents (m.grid.get i j)

/-- A matrix is **faithful** to a precision if this is its own and its entries belong to it. -/
structure Faithful (p : Precision) (m : DenseMatrix Float) : Prop where
  precision_eq : m.precision = p
  representable : m.Representable

/-- The matrix of a grid whose entries belong to its precision is faithful to it. -/
theorem faithful_mk {p : Precision} {rows cols : Nat} {hr : 0 < rows} {hc : 0 < cols}
    {g : Grid Float rows cols} (h : ∀ i j, p.Represents (g.get i j)) :
    (⟨p, rows, cols, hr, hc, g⟩ : DenseMatrix Float).Faithful p :=
  ⟨rfl, h⟩

/-! ## (1) New matrices -/

theorem faithful_zeros (p : Precision) {rows cols : Nat} (hr : 0 < rows) (hc : 0 < cols) :
    (zeros p rows cols hr hc : DenseMatrix Float).Faithful p := by
  refine faithful_mk fun i j => ?_
  rw [Grid.get_ofFn]
  exact p.represents_zero

theorem faithful_identity (p : Precision) {n : Nat} (hn : 0 < n) :
    (identity p n hn : DenseMatrix Float).Faithful p := by
  refine faithful_mk fun i j => ?_
  rw [Grid.get_ofFn]
  split
  · exact p.represents_one
  · exact p.represents_zero

theorem faithful_ofFn (p : Precision) {rows cols : Nat} (hr : 0 < rows) (hc : 0 < cols)
    (f : Fin rows → Fin cols → Float) : (ofFn p hr hc f).Faithful p := by
  refine faithful_mk fun i j => ?_
  rw [Grid.get_ofFn]
  exact p.represents_nearest _

theorem faithful_of_ofList {p : Precision} {rows cols : Nat} {xs : List Float}
    {m : DenseMatrix Float} (h : ofList p rows cols xs = .ok m) : m.Faithful p := by
  unfold ofList at h
  split at h
  · cases h
    exact faithful_ofFn p _ _ _
  · cases h

theorem faithful_of_column {p : Precision} {xs : List Float} {m : DenseMatrix Float}
    (h : column p xs = .ok m) : m.Faithful p :=
  faithful_of_ofList h

/-- **A matrix of nested lists** belongs to the precision it is built in. -/
theorem faithful_of_ofDatum {p : Precision} {d : Datum} {m : DenseMatrix Float}
    (h : ofDatum p d = .ok m) : m.Faithful p := by
  unfold ofDatum at h
  split at h
  · rename_i extent hextent
    by_cases hdepth : extent.length > maxDepth
    · simp only [hdepth, if_true] at h
      cases h
    · simp only [hdepth, if_false] at h
      rcases hentries : d.leaves.mapM Datum.toEntry with cause | entries
      · rw [hentries] at h
        cases h
      · rw [hentries] at h
        -- only lists of depth one and two are matrices
        match extent, h with
        | [n], h => exact faithful_of_ofList h
        | [r, c], h => exact faithful_of_ofList h
  · cases h

/-! ## (2) Operations -/

/-- An entrywise combination is faithful if each value is rounded. -/
theorem Entrywise.faithful {f : Precision → Float → Float → Float} {a b c : DenseMatrix Float}
    (hf : ∀ (p : Precision) (x y : Float), p.Represents (f p x y)) (h : Entrywise f a b c) :
    c.Faithful a.precision := by
  obtain ⟨hprecision, ha, hb, hget⟩ := h
  refine ⟨hprecision, fun i j => ?_⟩
  rw [hget, hprecision]
  exact hf _ _ _

theorem faithful_of_add {a b c : DenseMatrix Float} (h : a.add b = .ok c) :
    c.Faithful a.precision :=
  Entrywise.faithful (fun p _ _ => p.represents_nearest _) (add_eq_ok_iff.mp h).2

theorem faithful_of_sub {a b c : DenseMatrix Float} (h : a.sub b = .ok c) :
    c.Faithful a.precision :=
  Entrywise.faithful (fun p _ _ => p.represents_nearest _) (combine_eq_ok_iff.mp h).2

/-- So is a matrix with each entry replaced by a rounded value. -/
theorem faithful_map (a : DenseMatrix Float) {f : Float → Float}
    (hf : ∀ x, a.precision.Represents (f x)) :
    (a.withGrid (a.grid.map f)).Faithful a.precision := by
  refine faithful_mk fun i j => ?_
  rw [Grid.get_map]
  exact hf _

theorem faithful_neg (a : DenseMatrix Float) : a.neg.Faithful a.precision :=
  faithful_map a fun x => a.precision.represents_nearest (-x)

theorem faithful_scale (a : DenseMatrix Float) (x : Float) : (a.scale x).Faithful a.precision :=
  faithful_map a fun y => a.precision.represents_nearest (y * a.precision.nearest x)

theorem faithful_divide (a : DenseMatrix Float) (x : Float) : (a.divide x).Faithful a.precision :=
  faithful_map a fun y => a.precision.represents_nearest (y / a.precision.nearest x)

/-- A product is made in the precision that both factors have. -/
theorem faithful_of_mul {a b c : DenseMatrix Float} (h : a.mul b = .ok c) :
    c.Faithful a.precision ∧ a.precision = b.precision := by
  cases mul_eq_ok_iff_isProduct.mp h with
  | @mk p =>
    refine ⟨faithful_mk fun i j => ?_, rfl⟩
    rw [gridProduct, Grid.get_ofFn]
    exact p.represents_sum _

/-- Exchanging rows and columns computes nothing, so the entries belong to the precision if they
did. -/
theorem Representable.faithful_transpose {a : DenseMatrix Float} (h : a.Representable) :
    a.transpose.Faithful a.precision := by
  refine faithful_mk fun i j => ?_
  rw [Grid.get_transpose]
  exact h j i

/-! ## (3) Overwritten matrices -/

/-- What may **follow** a matrix in its place: precision and shape are the same. -/
structure Follows (a m : DenseMatrix Float) : Prop where
  precision_eq : m.precision = a.precision
  shape_eq : m.shape = a.shape

theorem Follows.refl (a : DenseMatrix Float) : Follows a a := ⟨rfl, rfl⟩

theorem Follows.trans {a b c : DenseMatrix Float} (hab : Follows a b) (hbc : Follows b c) :
    Follows a c :=
  ⟨hbc.precision_eq.trans hab.precision_eq, hbc.shape_eq.trans hab.shape_eq⟩

theorem Entrywise.follows {f : Precision → Float → Float → Float} {a b c : DenseMatrix Float}
    (h : Entrywise f a b c) : Follows a c :=
  ⟨h.precision_eq, h.shape_eq⟩

/-- An assignment takes the entries as they are, from a matrix of the same precision. -/
theorem follows_of_overwrite {a b c : DenseMatrix Float} (h : a.overwrite b = .ok c) :
    Follows a c ∧ (b.Representable → c.Representable) := by
  obtain ⟨hprecision, hc⟩ := combine_eq_ok_iff.mp h
  refine ⟨hc.follows, fun hrepresentable i j => ?_⟩
  obtain ⟨hcp, ha, hb, hget⟩ := hc
  rw [hget, hcp, hprecision]
  exact hrepresentable _ _

/-- A written entry is rounded, the others stay. -/
theorem follows_of_setEntry {a c : DenseMatrix Float} {key : Key} {value : Datum}
    (h : a.setEntry key value = .ok c) : Follows a c ∧ (a.Representable → c.Representable) := by
  unfold setEntry at h
  rcases hplace : a.locate key with cause | ⟨i, j⟩
  · rw [hplace] at h
    cases h
  · rcases hvalue : value.toEntry with cause | x
    · rw [hplace, hvalue] at h
      cases h
    · rw [hplace, hvalue] at h
      cases h
      refine ⟨⟨rfl, rfl⟩, fun hrepresentable => (faithful_mk fun i' j' => ?_).representable⟩
      rw [Grid.get_set]
      split
      · exact a.precision.represents_nearest x
      · exact hrepresentable i' j'

end DenseMatrix

/-! ## (4) Operators and systems -/

/-- A value made of a number in arithmetic is made of some double. -/
theorem Datum.exists_of_toFactor {α : Type} {d : Datum} {f : Float → α} {y : α}
    (h : (do return f (← d.toFactor) : Except Fault α) = .ok y) : ∃ x, y = f x := by
  rcases hx : d.toFactor with cause | x
  · rw [hx] at h
    cases h
  · rw [hx] at h
    exact ⟨x, (Except.ok.inj h).symm⟩

/-- **The result of an operator** is faithful to the precision of each operand that is a matrix. -/
theorem Operator.faithful_of_apply {operator : Operator} {x y : Operand} {c : DenseMatrix Float}
    (h : operator.apply x y = .ok c) {m : DenseMatrix Float} (hm : x = .matrix m ∨ y = .matrix m) :
    c.Faithful m.precision := by
  unfold apply at h
  split at h
  case h_1 a b =>
    have hequal := (DenseMatrix.add_eq_ok_iff.mp h).1
    have hc := DenseMatrix.faithful_of_add h
    rcases hm with hm | hm <;> cases hm
    · exact hc
    · exact hequal ▸ hc
  case h_2 a b =>
    have hequal := (DenseMatrix.combine_eq_ok_iff.mp h).1
    have hc := DenseMatrix.faithful_of_sub h
    rcases hm with hm | hm <;> cases hm
    · exact hc
    · exact hequal ▸ hc
  case h_3 a b =>
    obtain ⟨hc, hequal⟩ := DenseMatrix.faithful_of_mul h
    rcases hm with hm | hm <;> cases hm
    · exact hc
    · exact hequal ▸ hc
  case h_4 a d =>
    obtain rfl : a = m := by rcases hm with hm | hm <;> cases hm; rfl
    obtain ⟨z, rfl⟩ := Datum.exists_of_toFactor h
    exact DenseMatrix.faithful_scale a z
  case h_5 d a =>
    obtain rfl : a = m := by rcases hm with hm | hm <;> cases hm; rfl
    obtain ⟨z, rfl⟩ := Datum.exists_of_toFactor h
    exact DenseMatrix.faithful_scale a z
  case h_6 a d =>
    obtain rfl : a = m := by rcases hm with hm | hm <;> cases hm; rfl
    obtain ⟨z, rfl⟩ := Datum.exists_of_toFactor h
    exact DenseMatrix.faithful_divide a z
  case h_7 => cases h

/-- An operator refuses two plain values, so its results always belong to their precision. -/
theorem Operator.representable_of_apply {operator : Operator} {x y : Operand}
    {c : DenseMatrix Float} (h : operator.apply x y = .ok c) : c.Representable := by
  cases x with
  | matrix a => exact (faithful_of_apply h (.inl rfl)).representable
  | plain d =>
    cases y with
    | matrix b => exact (faithful_of_apply h (.inr rfl)).representable
    | plain e => cases operator <;> cases h

/-- An operator that overwrites leaves what may follow the matrix that it overwrites. -/
theorem Operator.follows_of_apply {operator : Operator} (hoverwrites : operator.overwrites = true)
    {a : DenseMatrix Float} {y : Operand} {c : DenseMatrix Float}
    (h : operator.apply (.matrix a) y = .ok c) : a.Follows c := by
  cases operator with
  | add =>
    cases y with
    | matrix b => exact (DenseMatrix.add_eq_ok_iff.mp h).2.follows
    | plain d => cases h
  | sub =>
    cases y with
    | matrix b => exact (DenseMatrix.combine_eq_ok_iff.mp h).2.follows
    | plain d => cases h
  | scale => cases hoverwrites
  | divide => cases hoverwrites
  | multiply => cases hoverwrites

/-- **A solution** is faithful to the precision that the matrix and the right-hand side have. -/
theorem faithful_of_solve {threshold : Threshold Float} {a b y : DenseMatrix Float}
    (h : solve threshold a b = .ok y) : y.Faithful a.precision ∧ a.precision = b.precision := by
  obtain ⟨hprecision, -, ⟨hsquare, hrows, x, hx, rfl⟩, -⟩ := solve_eq_ok_iff.mp h
  exact ⟨⟨rfl, fun i j => Elimination.represents_of_solve? hx i j⟩, hprecision⟩

end NewtonRaphson
