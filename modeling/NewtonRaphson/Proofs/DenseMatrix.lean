import NewtonRaphson.DenseMatrix

/-! # Matrices entry by entry

What the operations on two matrices return, said by the entries alone:

* **`DenseMatrix.Entrywise f a b c`** — the matrix `c` has the precision of `a` and the size of
  both, and each of its entries is `f` of the entries of `a` and `b` in its place.
* **`DenseMatrix.combine_eq_ok_iff`** — an operation returns `c` exactly if the precisions agree and
  `c` is the entrywise combination; sums, differences and assignments are instances.
* **`DenseMatrix.mul_eq_ok_iff`** — a product returns a given matrix exactly if the right factor has
  the size that this demands and the product of the entries is that of the matrix.
* **`DenseMatrix.IsCombination`**, **`DenseMatrix.IsProduct`** — the same said of the grids, for
  case splits: whatever an operation returned has one of these forms. -/

namespace NewtonRaphson

/-- Every entry in the list of a grid stands somewhere in the grid. -/
theorem Grid.exists_get_of_mem_entries {S : Type} {r c : Nat} {a : Grid S r c} {x : S}
    (h : x ∈ a.entries) : ∃ i j, a.get i j = x := by
  obtain ⟨row, hrow, hx⟩ := List.mem_flatten.mp h
  obtain ⟨v, hv, rfl⟩ := List.mem_map.mp hrow
  obtain ⟨i, hi, rfl⟩ := Vector.getElem_of_mem (Vector.mem_toList_iff.mp hv)
  obtain ⟨j, hj, rfl⟩ := Vector.getElem_of_mem (Vector.mem_toList_iff.mp hx)
  exact ⟨⟨i, hi⟩, ⟨j, hj⟩, rfl⟩

/-- The rows of a grid, by their entries. -/
theorem Grid.toLists_eq {S : Type} {r c : Nat} (a : Grid S r c) :
    a.toLists = List.ofFn fun i => List.ofFn (a.get i) := by
  have hrow {T : Type} {n : Nat} (v : Vector T n) : v.toList = List.ofFn fun j : Fin n => v[j] := by
    rw [← Vector.toList_ofFn]
    exact congrArg Vector.toList Vector.ofFn_getElem.symm
  rw [toLists, hrow, List.map_ofFn]
  exact congrArg List.ofFn (funext fun i => hrow a.rows[i])

namespace DenseMatrix

variable {S : Type}

/-- The matrix `c` is combined **entry by entry** from `a` and `b`: it has the precision of `a`, the
size of both, and in each place the value of `f` at their two entries. -/
def Entrywise (f : Precision → S → S → S) (a b c : DenseMatrix S) : Prop :=
  c.precision = a.precision ∧
    ∃ (ha : c.rows = a.rows ∧ c.cols = a.cols) (hb : c.rows = b.rows ∧ c.cols = b.cols),
      ∀ i j, c.grid.get i j =
        f a.precision (a.grid.get (i.cast ha.1) (j.cast ha.2))
          (b.grid.get (i.cast hb.1) (j.cast hb.2))

/-- A combination keeps the precision of its first operand. -/
theorem Entrywise.precision_eq {f : Precision → S → S → S} {a b c : DenseMatrix S}
    (h : Entrywise f a b c) : c.precision = a.precision := h.1

/-- A combination keeps the shape of its first operand. -/
theorem Entrywise.shape_eq {f : Precision → S → S → S} {a b c : DenseMatrix S}
    (h : Entrywise f a b c) : c.shape = a.shape := by
  obtain ⟨-, ⟨hr, hc⟩, -⟩ := h
  rw [shape, shape, hr, hc]

/-- The entries of a grid combined with that of a second matrix of the same size. -/
theorem get_zipWith_gridOf {f : S → S → S} {a b : DenseMatrix S}
    (h : a.rows = b.rows ∧ a.cols = b.cols) (i : Fin a.rows) (j : Fin a.cols) :
    (a.grid.zipWith f (a.gridOf b h)).get i j =
      f (a.grid.get i j) (b.grid.get (i.cast h.1) (j.cast h.2)) := by
  rw [Grid.get_zipWith, gridOf, Grid.get_cast]

/-- **What a combination returns.** It returns a matrix exactly if the precisions agree and the
matrix is the entrywise combination, which fixes the shapes as well. -/
theorem combine_eq_ok_iff {operation : Operation} {f : Precision → S → S → S}
    {a b c : DenseMatrix S} :
    combine operation f a b = .ok c ↔ a.precision = b.precision ∧ Entrywise f a b c := by
  unfold combine
  constructor
  · intro h
    by_cases hp : a.precision = b.precision
    · rw [if_pos hp] at h
      by_cases hs : a.rows = b.rows ∧ a.cols = b.cols
      · rw [dif_pos hs] at h
        obtain rfl := Except.ok.inj h
        exact ⟨hp, rfl, ⟨rfl, rfl⟩, hs, fun i j => get_zipWith_gridOf hs i j⟩
      · rw [dif_neg hs] at h
        cases h
    · rw [if_neg hp] at h
      cases h
  · rintro ⟨hp, hcp, ha, hb, hc⟩
    have hs : a.rows = b.rows ∧ a.cols = b.cols :=
      ⟨ha.1.symm.trans hb.1, ha.2.symm.trans hb.2⟩
    rw [if_pos hp, dif_pos hs]
    congr 1
    refine ext_get hcp.symm ha.1.symm ha.2.symm fun i j => ?_
    exact (get_zipWith_gridOf hs i j).trans (hc (i.cast ha.1.symm) (j.cast ha.2.symm)).symm

/-- The matrix `c` **is the combination** of `a` and `b` under `f`: all have one size and
precision. -/
inductive IsCombination (f : Precision → S → S → S) :
    DenseMatrix S → DenseMatrix S → DenseMatrix S → Prop
  | mk {p : Precision} {r k : Nat} {hr : 0 < r} {hk : 0 < k} (x y : Grid S r k) :
    IsCombination f ⟨p, r, k, hr, hk, x⟩ ⟨p, r, k, hr, hk, y⟩ ⟨p, r, k, hr, hk, x.zipWith (f p) y⟩

/-- What a combination returns, as a grid. -/
theorem combine_eq_ok_iff_isCombination {operation : Operation} {f : Precision → S → S → S}
    {a b c : DenseMatrix S} : combine operation f a b = .ok c ↔ IsCombination f a b c := by
  rw [combine_eq_ok_iff]
  constructor
  · rintro ⟨hp, hcp, hca, hcb, hget⟩
    obtain ⟨p, r, k, hr, hk, x⟩ := a
    obtain ⟨q, r', k', hr', hk', y⟩ := b
    obtain ⟨t, r'', k'', hr'', hk'', z⟩ := c
    dsimp only at hp hcp hca hcb
    obtain ⟨rfl, rfl⟩ := hca
    obtain ⟨rfl, rfl⟩ := hcb
    subst hp hcp
    obtain rfl : z = x.zipWith (f t) y :=
      Grid.ext fun i j => (hget i j).trans (Grid.get_zipWith _ x y i j).symm
    exact .mk x y
  · rintro ⟨x, y⟩
    exact ⟨rfl, rfl, ⟨rfl, rfl⟩, ⟨rfl, rfl⟩, fun i j => Grid.get_zipWith _ x y i j⟩

variable [Scalar S]

/-- The sum of two matrices is the matrix of the sums of their entries. -/
theorem add_eq_ok_iff {a b c : DenseMatrix S} :
    a.add b = .ok c ↔ a.precision = b.precision ∧ Entrywise Scalar.add a b c :=
  combine_eq_ok_iff

/-- The matrix `c` **is the product** of `a` and `b`: all have one precision, and `b` has as many
rows as `a` has columns. -/
inductive IsProduct : DenseMatrix S → DenseMatrix S → DenseMatrix S → Prop
  | mk {p : Precision} {r n k : Nat} {hr : 0 < r} {hn : 0 < n} {hk : 0 < k} (x : Grid S r n)
      (y : Grid S n k) :
    IsProduct ⟨p, r, n, hr, hn, x⟩ ⟨p, n, k, hn, hk, y⟩ ⟨p, r, k, hr, hk, gridProduct p x y⟩

/-- **What a product returns.** -/
theorem mul_eq_ok_iff_isProduct {a b c : DenseMatrix S} : a.mul b = .ok c ↔ IsProduct a b c := by
  constructor
  · intro h
    obtain ⟨p, r, n, hr, hn, x⟩ := a
    obtain ⟨q, m, k, hm, hk, y⟩ := b
    unfold mul at h
    by_cases hprecision : p = q
    · by_cases hinner : n = m
      · subst hprecision hinner
        rw [if_pos rfl, dif_pos rfl, Grid.castRows, Grid.cast_rfl] at h
        obtain rfl := Except.ok.inj h
        exact .mk x y
      · rw [if_pos hprecision, dif_neg hinner] at h
        cases h
    · rw [if_neg hprecision] at h
      cases h
  · rintro ⟨x, y⟩
    rw [mul, if_pos rfl, dif_pos rfl, Grid.castRows, Grid.cast_rfl]

/-- **What a product with a known result is**: the right factor has the size that the result
demands, and its entries are those that give the result. -/
theorem mul_eq_ok_iff {p : Precision} {r n k : Nat} {hr : 0 < r} {hn : 0 < n} {hk : 0 < k}
    {g : Grid S r n} {c : Grid S r k} {y : DenseMatrix S} :
    (mk p r n hr hn g).mul y = .ok ⟨p, r, k, hr, hk, c⟩ ↔
      ∃ x : Grid S n k, y = ⟨p, n, k, hn, hk, x⟩ ∧ gridProduct p g x = c := by
  rw [mul_eq_ok_iff_isProduct]
  constructor
  · intro h
    cases h with
    | mk _ x => exact ⟨x, rfl, rfl⟩
  · rintro ⟨x, rfl, rfl⟩
    exact .mk g x

/-- Whether every entry of a matrix is a number, said of the entries. -/
theorem isFinite_iff {a : DenseMatrix S} :
    a.isFinite = true ↔ ∀ i j, Scalar.isFinite (a.grid.get i j) = true :=
  Grid.all_eq_true

end DenseMatrix

end NewtonRaphson
