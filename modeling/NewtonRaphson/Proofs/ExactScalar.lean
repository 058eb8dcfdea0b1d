import Mathlib.Algebra.BigOperators.Fin
import Mathlib.Algebra.Order.Field.Basic
import Mathlib.Algebra.Order.Ring.Rat
import Mathlib.Data.Matrix.Mul
import Mathlib.Data.Rat.Sqrt
import NewtonRaphson.DenseMatrix

/-! # Exact scalars

Scalars without rounding: the operations are those of an ordered field and every value is finite.
What the algorithms compute over them is what they are meant to compute.

* **`RingScalar K`** — sums and products without rounding; **`ExactScalar K`** — the laws of exact
  arithmetic, apart from the operations themselves.
* **`foldl_add_eq_sum`**, **`DenseMatrix.column_gridProduct`** — running sums and products of grids
  are the sums and products of algebra.
* **`le_foldl_argmax`** — a running maximum is at least every value it went past. -/

namespace NewtonRaphson

/-- **Exact sums and products**: in every precision those of a commutative ring. -/
class RingScalar (K : Type) [CommRing K] [Scalar K] : Prop where
  zero_eq : (Scalar.zero : K) = 0
  one_eq : (Scalar.one : K) = 1
  add_eq : ∀ (p : Precision) (x y : K), Scalar.add p x y = x + y
  mul_eq : ∀ (p : Precision) (x y : K), Scalar.mul p x y = x * y

/-- **Exact arithmetic**: in every precision the operations of scalars are those of an ordered
field. A quotient by zero, roots and the distance to the next number are left open. -/
class ExactScalar (K : Type) [Field K] [LinearOrder K] [Scalar K] : Prop where
  zero_eq : (Scalar.zero : K) = 0
  one_eq : (Scalar.one : K) = 1
  ofNat_eq : ∀ n : ℕ, (Scalar.ofNat n : K) = n
  add_eq : ∀ (p : Precision) (x y : K), Scalar.add p x y = x + y
  sub_eq : ∀ (p : Precision) (x y : K), Scalar.sub p x y = x - y
  mul_eq : ∀ (p : Precision) (x y : K), Scalar.mul p x y = x * y
  div_eq : ∀ (p : Precision) (x y : K), y ≠ 0 → Scalar.div p x y = x / y
  neg_eq : ∀ (p : Precision) (x : K), Scalar.neg p x = -x
  abs_eq : ∀ x : K, Scalar.abs x = |x|
  round_eq : ∀ (p : Precision) (x : K), Scalar.round p x = x
  le_eq : ∀ x y : K, Scalar.le x y = decide (x ≤ y)
  lt_eq : ∀ x y : K, Scalar.lt x y = decide (x < y)
  eq_eq : ∀ x y : K, Scalar.eq x y = decide (x = y)
  isFinite_eq : ∀ x : K, Scalar.isFinite x = true

attribute [simp] ExactScalar.zero_eq ExactScalar.one_eq ExactScalar.ofNat_eq ExactScalar.add_eq
  ExactScalar.sub_eq ExactScalar.mul_eq ExactScalar.neg_eq ExactScalar.abs_eq ExactScalar.round_eq
  ExactScalar.le_eq ExactScalar.lt_eq ExactScalar.eq_eq ExactScalar.isFinite_eq

instance (K : Type) [Field K] [LinearOrder K] [Scalar K] [ExactScalar K] : RingScalar K where
  zero_eq := ExactScalar.zero_eq
  one_eq := ExactScalar.one_eq
  add_eq := ExactScalar.add_eq
  mul_eq := ExactScalar.mul_eq

/-! ## (1) Rational numbers -/

/-- Rational numbers as scalars. Roots are exact where they are rational. -/
instance : Scalar ℚ where
  zero := 0
  one := 1
  ofNat n := n
  add _ x y := x + y
  sub _ x y := x - y
  mul _ x y := x * y
  div _ x y := x / y
  sqrt _ x := Rat.sqrt x
  neg _ x := -x
  abs x := |x|
  round _ x := x
  le x y := decide (x ≤ y)
  lt x y := decide (x < y)
  eq x y := decide (x = y)
  isFinite _ := true
  epsilon
    | .single => 1 / 2 ^ 23
    | .double => 1 / 2 ^ 52

instance : ExactScalar ℚ where
  zero_eq := rfl
  one_eq := rfl
  ofNat_eq _ := rfl
  add_eq _ _ _ := rfl
  sub_eq _ _ _ := rfl
  mul_eq _ _ _ := rfl
  div_eq _ _ _ _ := rfl
  neg_eq _ _ := rfl
  abs_eq _ := rfl
  round_eq _ _ := rfl
  le_eq _ _ := rfl
  lt_eq _ _ := rfl
  eq_eq _ _ := rfl
  isFinite_eq _ := rfl

/-! ## (2) Running sums and maxima -/

/-- A running sum is the sum. -/
theorem foldl_add_eq_sum {K : Type} [AddCommMonoid K] {n : ℕ} (f : Fin n → K) (s : K) :
    Fin.foldl n (fun s i => s + f i) s = s + ∑ i, f i := by
  induction n with
  | zero => rw [Fin.foldl_zero, Finset.univ_eq_empty, Finset.sum_empty, add_zero]
  | succ n ih => rw [Fin.foldl_succ_last, ih, Fin.sum_univ_castSucc, add_assoc]

/-- A running difference is the difference to the sum. -/
theorem foldl_sub_eq_sub_sum {K : Type} [AddCommGroup K] {n : ℕ} (f : Fin n → K) (s : K) :
    Fin.foldl n (fun s i => s - f i) s = s - ∑ i, f i := by
  have h := foldl_add_eq_sum (fun i => -f i) s
  rw [Finset.sum_neg_distrib, ← sub_eq_add_neg] at h
  simpa only [← sub_eq_add_neg] using h

/-- A running choice of the largest is at least the start and everything it went past. -/
theorem le_foldl_argmax {α L : Type} [LinearOrder L] (f : α → L) {n : ℕ} (g : Fin n → α) (s : α) :
    f s ≤ f (Fin.foldl n (fun best i => if f best < f (g i) then g i else best) s) ∧
      ∀ i, f (g i) ≤ f (Fin.foldl n (fun best i => if f best < f (g i) then g i else best) s) := by
  induction n with
  | zero => exact ⟨by rw [Fin.foldl_zero], fun i => i.elim0⟩
  | succ n ih =>
    obtain ⟨hstart, hpast⟩ := ih fun i => g i.castSucc
    rw [Fin.foldl_succ_last]
    generalize Fin.foldl n (fun best i => if f best < f (g i.castSucc) then g i.castSucc else best)
      s = best at hstart hpast ⊢
    -- the last candidate either replaces the best so far or does not exceed it
    by_cases hlast : f best < f (g (Fin.last n))
    · rw [if_pos hlast]
      refine ⟨hstart.trans hlast.le, fun i => ?_⟩
      induction i using Fin.lastCases with
      | last => exact le_rfl
      | cast i => exact (hpast i).trans hlast.le
    · rw [if_neg hlast]
      refine ⟨hstart, fun i => ?_⟩
      induction i using Fin.lastCases with
      | last => exact not_lt.mp hlast
      | cast i => exact hpast i

/-! ## (3) Products -/

namespace Grid

variable {S : Type} {r c : ℕ}

/-- The grid as a matrix of algebra. -/
def toMatrix (a : Grid S r c) : Matrix (Fin r) (Fin c) S := Matrix.of a.get

@[simp] theorem toMatrix_apply (a : Grid S r c) (i : Fin r) (j : Fin c) :
    a.toMatrix i j = a.get i j := rfl

/-- The column with a given number. -/
def column (a : Grid S r c) (j : Fin c) : Fin r → S := fun i => a.get i j

@[simp] theorem column_apply (a : Grid S r c) (j : Fin c) (i : Fin r) :
    a.column j i = a.get i j := rfl

/-- Grids with the same columns are equal. -/
theorem ext_column {a b : Grid S r c} (h : ∀ j, a.column j = b.column j) : a = b :=
  ext fun i j => congrFun (h j) i

end Grid

/-- The sum of terms, without rounding. -/
theorem DenseMatrix.sum_eq_sum {K : Type} [CommRing K] [Scalar K] [RingScalar K] (p : Precision)
    {n : ℕ} (f : Fin n → K) : DenseMatrix.sum p f = ∑ i, f i := by
  simp only [DenseMatrix.sum, RingScalar.add_eq, RingScalar.zero_eq, foldl_add_eq_sum, zero_add]

section Exact

variable {K : Type} [Field K] [LinearOrder K] [Scalar K] [ExactScalar K]

/-- A grid multiplied by a number, as a matrix of algebra. -/
theorem Grid.toMatrix_map_mul (p : Precision) {r c : ℕ} (a : Grid K r c) (x : K) :
    (a.map (Scalar.mul p · x)).toMatrix = x • a.toMatrix := by
  funext i j
  simp [mul_comm]

/-- Each column of a product of grids is the matrix times the column. -/
theorem DenseMatrix.column_gridProduct (p : Precision) {r n c : ℕ} (a : Grid K r n) (b : Grid K n c)
    (j : Fin c) : (DenseMatrix.gridProduct p a b).column j = a.toMatrix.mulVec (b.column j) := by
  funext i
  simp [DenseMatrix.gridProduct, DenseMatrix.sum_eq_sum, Matrix.mulVec, dotProduct]

end Exact

end NewtonRaphson
