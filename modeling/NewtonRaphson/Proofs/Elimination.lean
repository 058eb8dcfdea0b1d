import Mathlib.Data.Fin.Tuple.Basic
import Mathlib.Tactic.FieldSimp
import Mathlib.Tactic.LinearCombination
import NewtonRaphson.Elimination
import NewtonRaphson.Proofs.ExactScalar

/-! # Elimination is correct

Over exact scalars elimination solves exactly the systems that have one solution. The invariant is
that one round of it keeps the solutions: a vector solves a system exactly if its tail solves the
reduced system and its head is what the first row says (`Elimination.mulVec_eq_iff`).

* **`Elimination.solve?_eq_some`** — a solution that is returned is the only one.
* **`Elimination.solve?_eq_none_iff`** — none is returned exactly if the matrix takes a nonzero
  vector to zero. -/

namespace NewtonRaphson

namespace Elimination

variable {K : Type}

/-! ## (1) Rows -/

section Rows

variable {n k : ℕ}

/-- A row of the matrix times a vector, with the first term apart. -/
theorem mulVec_apply_succ [Field K] {a : Grid K (n + 1) (n + 1)} (v : Fin (n + 1) → K)
    (i : Fin (n + 1)) :
    a.toMatrix.mulVec v i = a.get i 0 * v 0 + ∑ l, a.get i l.succ * Fin.tail v l :=
  Fin.sum_univ_succ _

/-- Exchanging rows permutes the entries of each column. -/
theorem column_swapRows (b : Grid K n k) (p q : Fin n) (j : Fin k) :
    (b.swapRows p q).column j = b.column j ∘ Equiv.swap p q := by
  funext i
  rw [Grid.column_apply, Grid.get_swapRows, Function.comp_apply, Grid.column_apply,
    Equiv.swap_apply_def]

/-- Exchanging rows of matrix and right-hand side alike keeps the solutions. -/
theorem mulVec_swapRows_iff [Field K] (a : Grid K n n) (p q : Fin n) (v c : Fin n → K) :
    (a.swapRows p q).toMatrix.mulVec v = c ∘ Equiv.swap p q ↔ a.toMatrix.mulVec v = c := by
  have hswap : (a.swapRows p q).toMatrix.mulVec v = a.toMatrix.mulVec v ∘ Equiv.swap p q := by
    funext i
    simp only [Matrix.mulVec, dotProduct, Grid.toMatrix_apply, Grid.get_swapRows,
      Function.comp_apply, Equiv.swap_apply_def]
  rw [hswap]
  exact (Equiv.swap p q).surjective.injective_comp_right.eq_iff

/-- After the exchange the pivot stands on top. -/
theorem get_swapRows_pivot [Scalar K] (a : Grid K (n + 1) (n + 1)) :
    (a.swapRows 0 (pivotRow a)).get 0 0 = a.get (pivotRow a) 0 := by
  rw [Grid.get_swapRows, if_pos rfl]

end Rows

/-! ## (2) Unknowns below the first -/

section Below

variable {n k : ℕ}

/-- The unknowns below the first one. -/
def below (y : Grid K (n + 1) k) : Grid K n k := .ofFn fun i j => y.get i.succ j

theorem column_below (y : Grid K (n + 1) k) (j : Fin k) :
    (below y).column j = Fin.tail (y.column j) := by
  funext i
  exact Grid.get_ofFn _ i j

/-- A grid of unknowns is put together from its first row and those below. -/
theorem eq_onTop_iff {y : Grid K (n + 1) k} {first : Fin k → K} {x : Grid K n k} :
    y = onTop first x ↔ below y = x ∧ ∀ j, y.get 0 j = first j := by
  constructor
  · rintro rfl
    exact ⟨Grid.ext fun i j => by simp [below, onTop], fun j => by simp [onTop]⟩
  · rintro ⟨rfl, hfirst⟩
    refine Grid.ext fun i j => ?_
    cases i using Fin.cases with
    | zero => simp [onTop, hfirst]
    | succ i => simp [onTop, below]

end Below

/-! ## (3) Degenerate grids -/

section Degenerate

variable [Field K] {n : ℕ}

/-- A square grid is **degenerate** if it takes a vector that is not zero to zero. -/
def Degenerate (a : Grid K n n) : Prop := ∃ v : Fin n → K, v ≠ 0 ∧ a.toMatrix.mulVec v = 0

/-- Exchanging rows changes nothing about degeneracy. -/
theorem degenerate_swapRows_iff (a : Grid K n n) (p q : Fin n) :
    Degenerate (a.swapRows p q) ↔ Degenerate a := by
  refine exists_congr fun v => and_congr_right fun _ => ?_
  exact mulVec_swapRows_iff a p q v 0

/-- A grid whose first column is zero is degenerate. -/
theorem degenerate_of_column_zero {a : Grid K (n + 1) (n + 1)} (h : ∀ i, a.get i 0 = 0) :
    Degenerate a := by
  refine ⟨Pi.single 0 1, ?_, ?_⟩
  · intro hzero
    have hone := congrFun hzero 0
    rw [Pi.single_eq_same, Pi.zero_apply] at hone
    exact one_ne_zero hone
  · funext i
    rw [Matrix.mulVec_single_one]
    exact h i

end Degenerate

variable [Field K] [LinearOrder K] [Scalar K] [ExactScalar K]

/-! ## (4) The pivot -/

/-- The pivot is at least as large as every other entry of its column. -/
theorem abs_le_abs_pivot {n c : ℕ} (a : Grid K (n + 1) (c + 1)) (i : Fin (n + 1)) :
    |a.get i 0| ≤ |a.get (pivotRow a) 0| := by
  have hpivot : pivotRow a = Fin.foldl (n + 1)
      (fun best i => if |a.get best 0| < |a.get i 0| then i else best) 0 := by
    simp only [pivotRow, ExactScalar.abs_eq, ExactScalar.lt_eq, decide_eq_true_eq]
  rw [hpivot]
  exact (le_foldl_argmax (fun i => |a.get i 0|) (fun i => i) 0).2 i

/-- A column whose pivot is zero is zero. -/
theorem get_eq_zero_of_pivot [IsStrictOrderedRing K] {n c : ℕ} {a : Grid K (n + 1) (c + 1)}
    (h : a.get (pivotRow a) 0 = 0) (i : Fin (n + 1)) : a.get i 0 = 0 := by
  have hle := abs_le_abs_pivot a i
  rw [h, abs_zero] at hle
  exact abs_nonpos_iff.mp hle

/-! ## (5) One round of elimination -/

section Round

variable {n k : ℕ} {p : Precision} {a : Grid K (n + 1) (n + 1)}

/-- The right-hand sides are reduced column by column. -/
theorem column_reducedSides (ha : a.get 0 0 ≠ 0) (b : Grid K (n + 1) k) (j : Fin k) :
    (reducedSides p a b).column j =
      fun i => b.column j i.succ - a.get i.succ 0 / a.get 0 0 * b.column j 0 := by
  funext i
  simp [reducedSides, multiplier, ExactScalar.div_eq _ _ _ ha]

/-- The first unknown is what the first row says of it. -/
theorem firstUnknown_eq (ha : a.get 0 0 ≠ 0) (b : Grid K (n + 1) k) (x : Grid K n k) (j : Fin k) :
    firstUnknown p a b x j =
      (b.column j 0 - ∑ l, a.get 0 l.succ * x.column j l) / a.get 0 0 := by
  simp [firstUnknown, foldl_sub_eq_sub_sum, ExactScalar.div_eq _ _ _ ha]

/-- The reduced matrix times the tail of a vector, from the rows of the matrix. -/
theorem mulVec_reduced (ha : a.get 0 0 ≠ 0) (v : Fin n → K) (i : Fin n) :
    (reduced p a).toMatrix.mulVec v i =
      ∑ l, a.get i.succ l.succ * v l - a.get i.succ 0 / a.get 0 0 * ∑ l, a.get 0 l.succ * v l := by
  show ∑ l, (reduced p a).get i l * v l = _
  rw [Finset.mul_sum, ← Finset.sum_sub_distrib]
  refine Finset.sum_congr rfl fun l _ => ?_
  simp only [reduced, multiplier, Grid.get_ofFn, ExactScalar.sub_eq,
    ExactScalar.mul_eq, ExactScalar.div_eq _ _ _ ha]
  ring

/-- **One round keeps the solutions**: with a pivot that is not zero a vector solves a system
exactly if its tail solves the reduced system and its head is what the first row says. -/
theorem mulVec_eq_iff (ha : a.get 0 0 ≠ 0) {v c : Fin (n + 1) → K} :
    a.toMatrix.mulVec v = c ↔
      ((reduced p a).toMatrix.mulVec (Fin.tail v) =
        fun i => c i.succ - a.get i.succ 0 / a.get 0 0 * c 0) ∧
      v 0 = (c 0 - ∑ l, a.get 0 l.succ * Fin.tail v l) / a.get 0 0 := by
  have hhead : v 0 = (c 0 - ∑ l, a.get 0 l.succ * Fin.tail v l) / a.get 0 0 ↔
      a.toMatrix.mulVec v 0 = c 0 := by
    rw [mulVec_apply_succ, eq_div_iff ha, eq_sub_iff_add_eq, mul_comm]
  have htail (h : a.toMatrix.mulVec v 0 = c 0) (i : Fin n) :
      (reduced p a).toMatrix.mulVec (Fin.tail v) i = c i.succ - a.get i.succ 0 / a.get 0 0 * c 0 ↔
        a.toMatrix.mulVec v i.succ = c i.succ := by
    rw [mulVec_reduced ha, mulVec_apply_succ]
    rw [mulVec_apply_succ] at h
    -- the multiple of the first row cancels the first term of the row
    have hcancel : a.get i.succ 0 * v 0 = a.get i.succ 0 / a.get 0 0 * (a.get 0 0 * v 0) := by
      field_simp
    rw [hcancel, ← h]
    constructor
    · intro hr
      linear_combination hr
    · intro hr
      linear_combination hr
  rw [funext_iff, funext_iff, Fin.forall_fin_succ, hhead, and_comm]
  exact and_congr_left fun h => forall_congr' fun i => (htail h i).symm

/-- One round keeps what a matrix takes to zero. -/
theorem mulVec_eq_zero_iff (ha : a.get 0 0 ≠ 0) {v : Fin (n + 1) → K} :
    a.toMatrix.mulVec v = 0 ↔
      (reduced p a).toMatrix.mulVec (Fin.tail v) = 0 ∧
      v 0 = -(∑ l, a.get 0 l.succ * Fin.tail v l) / a.get 0 0 := by
  rw [mulVec_eq_iff (p := p) ha]
  simp only [Pi.zero_apply, mul_zero, sub_zero, zero_sub]
  rfl

end Round

/-! ## (6) Elimination as a whole -/

/-- A product of grids is what it is column by column. -/
theorem gridProduct_eq_iff {p : Precision} {r n k : ℕ} {a : Grid K r n} {y : Grid K n k}
    {b : Grid K r k} :
    DenseMatrix.gridProduct p a y = b ↔ ∀ j, a.toMatrix.mulVec (y.column j) = b.column j := by
  constructor
  · rintro rfl j
    exact (DenseMatrix.column_gridProduct p a y j).symm
  · intro h
    exact Grid.ext_column fun j => (DenseMatrix.column_gridProduct p a y j).trans (h j)

/-- One round of elimination for all right-hand sides at once. -/
theorem gridProduct_eq_iff_of_pivot {p : Precision} {n k : ℕ} {a : Grid K (n + 1) (n + 1)}
    (ha : a.get 0 0 ≠ 0) {y b : Grid K (n + 1) k} :
    DenseMatrix.gridProduct p a y = b ↔
      DenseMatrix.gridProduct p (reduced p a) (below y) = reducedSides p a b ∧
        ∀ j, y.get 0 j = firstUnknown p a b (below y) j := by
  rw [gridProduct_eq_iff, gridProduct_eq_iff, ← forall_and]
  refine forall_congr' fun j => ?_
  rw [column_reducedSides ha, column_below, firstUnknown_eq ha, column_below]
  exact mulVec_eq_iff ha

/-- Exchanging rows keeps the solutions of all right-hand sides. -/
theorem gridProduct_swapRows_iff {p : Precision} {n k : ℕ} (a : Grid K n n) (q r : Fin n)
    {y b : Grid K n k} :
    DenseMatrix.gridProduct p (a.swapRows q r) y = b.swapRows q r ↔
      DenseMatrix.gridProduct p a y = b := by
  rw [gridProduct_eq_iff, gridProduct_eq_iff]
  refine forall_congr' fun j => ?_
  rw [column_swapRows]
  exact mulVec_swapRows_iff a q r _ _

/-- What elimination returns is known after one round. -/
theorem solve?_succ (p : Precision) {n k : ℕ} (a : Grid K (n + 1) (n + 1)) (b : Grid K (n + 1) k) :
    solve? p a b =
      if a.get (pivotRow a) 0 = 0 then none
      else (solve? p (reduced p (a.swapRows 0 (pivotRow a)))
        (reducedSides p (a.swapRows 0 (pivotRow a)) (b.swapRows 0 (pivotRow a)))).map fun x =>
          onTop (firstUnknown p (a.swapRows 0 (pivotRow a)) (b.swapRows 0 (pivotRow a)) x) x := by
  rw [solve?]
  simp only [Grid.get_swapRows, if_pos, ExactScalar.eq_eq, ExactScalar.zero_eq, decide_eq_true_eq]

/-- **A solution that elimination returns is the only one.** -/
theorem solve?_eq_some {p : Precision} {n k : ℕ} {a : Grid K n n} {b x : Grid K n k}
    (h : solve? p a b = some x) (y : Grid K n k) : DenseMatrix.gridProduct p a y = b ↔ y = x := by
  induction n with
  | zero =>
    -- there are no entries that could differ
    exact ⟨fun _ => Grid.ext fun i => i.elim0, fun _ => Grid.ext fun i => i.elim0⟩
  | succ n ih =>
    rw [solve?_succ] at h
    by_cases hpivot : a.get (pivotRow a) 0 = 0
    · rw [if_pos hpivot] at h
      cases h
    · rw [if_neg hpivot] at h
      obtain ⟨x', hx', rfl⟩ := Option.map_eq_some_iff.mp h
      have ha : (a.swapRows 0 (pivotRow a)).get 0 0 ≠ 0 := by rwa [get_swapRows_pivot]
      rw [← gridProduct_swapRows_iff a 0 (pivotRow a), gridProduct_eq_iff_of_pivot ha, ih hx',
        eq_onTop_iff]
      constructor
      · rintro ⟨rfl, hfirst⟩
        exact ⟨rfl, hfirst⟩
      · rintro ⟨rfl, hfirst⟩
        exact ⟨rfl, hfirst⟩

/-- One round of elimination changes nothing about degeneracy. -/
theorem degenerate_reduced_iff {p : Precision} {n : ℕ} {a : Grid K (n + 1) (n + 1)}
    (ha : a.get 0 0 ≠ 0) : Degenerate (reduced p a) ↔ Degenerate a := by
  constructor
  · rintro ⟨v, hv, hzero⟩
    refine ⟨Fin.cons (-(∑ l, a.get 0 l.succ * v l) / a.get 0 0) v, ?_, ?_⟩
    · intro hcons
      exact hv (funext fun i => congrFun hcons i.succ)
    · rw [mulVec_eq_zero_iff (p := p) ha, Fin.tail_cons, Fin.cons_zero]
      exact ⟨hzero, rfl⟩
  · rintro ⟨v, hv, hzero⟩
    obtain ⟨htail, hhead⟩ := (mulVec_eq_zero_iff (p := p) ha).mp hzero
    refine ⟨Fin.tail v, ?_, htail⟩
    -- were the tail zero, the first row would make the head zero as well
    intro hv'
    have hsum : ∑ l, a.get 0 l.succ * Fin.tail v l = 0 := by
      rw [hv']
      exact Finset.sum_eq_zero fun l _ => mul_zero _
    rw [hsum, neg_zero, zero_div] at hhead
    refine hv (funext fun i => ?_)
    cases i using Fin.cases with
    | zero => exact hhead
    | succ i => exact congrFun hv' i

/-- **Elimination fails exactly on degenerate matrices**, whatever the right-hand sides are. -/
theorem solve?_eq_none_iff [IsStrictOrderedRing K] {p : Precision} {n k : ℕ} {a : Grid K n n}
    {b : Grid K n k} : solve? p a b = none ↔ Degenerate a := by
  induction n with
  | zero =>
    -- the only vector without entries is zero
    exact ⟨nofun, fun ⟨v, hv, _⟩ => absurd (Subsingleton.elim v 0) hv⟩
  | succ n ih =>
    rw [solve?_succ]
    by_cases hpivot : a.get (pivotRow a) 0 = 0
    · rw [if_pos hpivot]
      exact ⟨fun _ => degenerate_of_column_zero (get_eq_zero_of_pivot hpivot), fun _ => rfl⟩
    · have ha : (a.swapRows 0 (pivotRow a)).get 0 0 ≠ 0 := by rwa [get_swapRows_pivot]
      rw [if_neg hpivot, Option.map_eq_none_iff, ih, degenerate_reduced_iff ha,
        degenerate_swapRows_iff]

end Elimination

end NewtonRaphson
