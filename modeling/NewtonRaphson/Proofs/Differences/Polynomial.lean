import Mathlib.Algebra.MvPolynomial.PDeriv
import Mathlib.RingTheory.Derivation.Lie
import Mathlib.Tactic.IntervalCases
import Mathlib.Tactic.LinearCombination

/-! # Differences of polynomials

A difference around a point takes a polynomial apart by its monomials, and a monomial by its
variables: what is left is a difference of powers of one number, or a product of two.

* **`induction_of_totalDegree_le`** — a property of monomials up to a degree that sums keep is one
  of polynomials.
* **`eval_update_monomial`**, **`eval_pderiv_monomial`** — a monomial and its derivative along one
  coordinate have the same factor from the other coordinates.
* **`sub_of_totalDegree_le`** — the central difference of a polynomial of degree two at most is its
  derivative.
* **`second_of_totalDegree_le`**, **`mixed_of_totalDegree_le`** — the second differences of a
  polynomial of degree three at most are its second derivatives, the terms of degree three
  cancel. -/

namespace NewtonRaphson

namespace Differences

open MvPolynomial

variable {K : Type} [CommRing K] {n : ℕ} {P : MvPolynomial (Fin n) K}

/-- **Polynomials up to a degree** are sums of monomials up to that degree. -/
@[elab_as_elim]
theorem induction_of_totalDegree_le {k : ℕ} {motive : MvPolynomial (Fin n) K → Prop}
    (hzero : motive 0) (hadd : ∀ P Q, motive P → motive Q → motive (P + Q))
    (hmonomial : ∀ (d : Fin n →₀ ℕ) (c : K), ∑ j, d j ≤ k → motive (monomial d c))
    (hP : P.totalDegree ≤ k) : motive P := by
  rw [P.as_sum]
  refine Finset.sum_induction _ motive hadd hzero fun d hd => hmonomial d _ ?_
  rw [← Finsupp.sum_fintype d (fun _ e => e) fun _ => rfl]
  exact (le_totalDegree hd).trans hP

/-! ## (1) Powers of one number -/

/-- The difference of powers up to the second is the derivative. -/
theorem pow_sub_pow {k : ℕ} (hk : k ≤ 2) (a h : K) :
    (a + h) ^ k - (a - h) ^ k = 2 * h * (k * a ^ (k - 1)) := by
  interval_cases k <;> push_cast <;> ring

/-- The second difference of powers up to the third is the second derivative. -/
theorem pow_sub_two_mul_pow_add_pow {k : ℕ} (hk : k ≤ 3) (a h : K) :
    (a + h) ^ k - 2 * a ^ k + (a - h) ^ k = h * h * (k * ((k - 1 : ℕ) * a ^ (k - 1 - 1))) := by
  interval_cases k <;> push_cast <;> ring

/-- The mixed difference of products of powers up to the third is the mixed derivative: of the two
powers one is constant, or both are at most squares. -/
theorem pow_mul_pow_mixed {k l : ℕ} (hkl : k + l ≤ 3) (a b h : K) :
    (a + h) ^ k * (b + h) ^ l - (a + h) ^ k * (b - h) ^ l - (a - h) ^ k * (b + h) ^ l +
        (a - h) ^ k * (b - h) ^ l =
      4 * (h * h) * (k * a ^ (k - 1) * (l * b ^ (l - 1))) := by
  rcases Nat.eq_zero_or_pos k with rfl | hk
  · simp
  rcases Nat.eq_zero_or_pos l with rfl | hl
  · simp
  have hleft := pow_sub_pow (show k ≤ 2 by omega) a h
  have hright := pow_sub_pow (show l ≤ 2 by omega) b h
  calc (a + h) ^ k * (b + h) ^ l - (a + h) ^ k * (b - h) ^ l - (a - h) ^ k * (b + h) ^ l +
        (a - h) ^ k * (b - h) ^ l
      = ((a + h) ^ k - (a - h) ^ k) * ((b + h) ^ l - (b - h) ^ l) := by ring
    _ = 4 * (h * h) * (k * a ^ (k - 1) * (l * b ^ (l - 1))) := by rw [hleft, hright]; ring

/-! ## (2) Monomials along a coordinate -/

section Monomials

variable (x : Fin n → K) (d : Fin n →₀ ℕ) (c : K) {i j : Fin n}

/-- The factor that a monomial has from the coordinates other than `i`. -/
def others (i : Fin n) : K := ∏ k ∈ Finset.univ.erase i, x k ^ d k

/-- The factor that a monomial has from the coordinates other than `i` and `j`. -/
def remaining (i j : Fin n) : K := ∏ k ∈ (Finset.univ.erase i).erase j, x k ^ d k

theorem eval_monomial_eq (i : Fin n) : eval x (monomial d c) = c * (x i ^ d i * others x d i) := by
  rw [eval_monomial, Finsupp.prod_fintype _ _ fun _ => pow_zero _, others,
    Finset.mul_prod_erase _ (fun k => x k ^ d k) (Finset.mem_univ i)]

/-- The other coordinates do not see a move along `i`. -/
theorem others_update (i : Fin n) (a : K) : others (Function.update x i a) d i = others x d i :=
  Finset.prod_congr rfl fun k hk => by rw [Function.update_of_ne (Finset.ne_of_mem_erase hk)]

/-- Nor do they see a derivative along `i`. -/
theorem others_sub_single (i : Fin n) : others x (d - Finsupp.single i 1) i = others x d i :=
  Finset.prod_congr rfl fun k hk => by
    rw [Finsupp.tsub_apply, Finsupp.single_eq_of_ne (Finset.ne_of_mem_erase hk), Nat.sub_zero]

/-- One of the other coordinates may be split off. -/
theorem others_eq (hij : i ≠ j) : others x d i = x j ^ d j * remaining x d i j :=
  (Finset.mul_prod_erase _ (fun k => x k ^ d k)
    (Finset.mem_erase.mpr ⟨hij.symm, Finset.mem_univ j⟩)).symm

/-- **A monomial at a point that is moved along one coordinate.** -/
theorem eval_update_monomial (i : Fin n) (a : K) :
    eval (Function.update x i a) (monomial d c) = c * (a ^ d i * others x d i) := by
  rw [eval_monomial_eq _ d c i, Function.update_self, others_update]

/-- **The derivative of a monomial along one coordinate.** -/
theorem eval_pderiv_monomial (i : Fin n) :
    eval x (pderiv i (monomial d c)) = c * d i * (x i ^ (d i - 1) * others x d i) := by
  rw [pderiv_monomial, eval_monomial_eq _ _ _ i, others_sub_single, Finsupp.tsub_apply,
    Finsupp.single_eq_same]

/-- The second derivative along one coordinate. -/
theorem eval_pderiv_pderiv_monomial (i : Fin n) :
    eval x (pderiv i (pderiv i (monomial d c))) =
      c * d i * (d i - 1 : ℕ) * (x i ^ (d i - 1 - 1) * others x d i) := by
  rw [pderiv_monomial, eval_pderiv_monomial, others_sub_single, Finsupp.tsub_apply,
    Finsupp.single_eq_same]

/-- A monomial at a point that is moved along two coordinates. -/
theorem eval_update_update_monomial (hij : i ≠ j) (a b : K) :
    eval (Function.update (Function.update x i a) j b) (monomial d c) =
      c * (a ^ d i * (b ^ d j * remaining x d i j)) := by
  have hremaining : remaining (Function.update x j b) d i j = remaining x d i j :=
    Finset.prod_congr rfl fun k hk => by rw [Function.update_of_ne (Finset.ne_of_mem_erase hk)]
  rw [Function.update_comm hij, eval_update_monomial, others_eq _ d hij,
    Function.update_self, hremaining]

/-- Its derivative along both. -/
theorem eval_pderiv_monomial_of_ne (hij : i ≠ j) :
    eval x (pderiv i (pderiv j (monomial d c))) =
      c * (d i * x i ^ (d i - 1) * (d j * x j ^ (d j - 1))) * remaining x d i j := by
  have hremaining : remaining x (d - Finsupp.single j 1) i j = remaining x d i j :=
    Finset.prod_congr rfl fun k hk => by
      rw [Finsupp.tsub_apply, Finsupp.single_eq_of_ne (Finset.ne_of_mem_erase hk), Nat.sub_zero]
  rw [pderiv_monomial, eval_pderiv_monomial, others_eq _ _ hij, hremaining, Finsupp.tsub_apply,
    Finsupp.tsub_apply, Finsupp.single_eq_same, Finsupp.single_eq_of_ne hij, Nat.sub_zero]
  ring

end Monomials

/-! ## (3) Differences of polynomials -/

/-- An exponent is at most the degree. -/
theorem le_sum (d : Fin n →₀ ℕ) (i : Fin n) : d i ≤ ∑ j, d j :=
  Finset.single_le_sum (fun _ _ => Nat.zero_le _) (Finset.mem_univ i)

/-- So are two exponents together. -/
theorem add_le_sum (d : Fin n →₀ ℕ) {i j : Fin n} (hij : i ≠ j) : d i + d j ≤ ∑ k, d k := by
  rw [← Finset.sum_pair hij]
  exact Finset.sum_le_sum_of_subset (Finset.subset_univ _)

variable (x : Fin n → K) (h : K)

/-- **The central difference** of a polynomial of degree two at most is twice the width times the
derivative. -/
theorem sub_of_totalDegree_le (hP : P.totalDegree ≤ 2) (i : Fin n) :
    eval (Function.update x i (x i + h)) P - eval (Function.update x i (x i - h)) P =
      2 * h * eval x (pderiv i P) := by
  refine induction_of_totalDegree_le ?_ (fun P Q hP hQ => ?_) (fun d c hd => ?_) hP
  · simp
  · simp only [map_add]
    linear_combination hP + hQ
  · rw [eval_update_monomial, eval_update_monomial, eval_pderiv_monomial]
    linear_combination c * others x d i * pow_sub_pow ((le_sum d i).trans hd) (x i) h

/-- **The second difference** along a coordinate of a polynomial of degree three at most is the
square of the width times the second derivative. -/
theorem second_of_totalDegree_le (hP : P.totalDegree ≤ 3) (i : Fin n) :
    eval (Function.update x i (x i + h)) P - 2 * eval x P + eval (Function.update x i (x i - h)) P =
      h * h * eval x (pderiv i (pderiv i P)) := by
  refine induction_of_totalDegree_le ?_ (fun P Q hP hQ => ?_) (fun d c hd => ?_) hP
  · simp
  · simp only [map_add]
    linear_combination hP + hQ
  · rw [eval_update_monomial, eval_update_monomial, eval_pderiv_pderiv_monomial,
      eval_monomial_eq x d c i]
    linear_combination c * others x d i * pow_sub_two_mul_pow_add_pow
      ((le_sum d i).trans hd) (x i) h

/-- **The mixed difference** of a polynomial of degree three at most is four times the square of the
width times the mixed derivative. -/
theorem mixed_of_totalDegree_le (hP : P.totalDegree ≤ 3) {i j : Fin n} (hij : i ≠ j) :
    eval (Function.update (Function.update x i (x i + h)) j (x j + h)) P -
        eval (Function.update (Function.update x i (x i + h)) j (x j - h)) P -
        eval (Function.update (Function.update x i (x i - h)) j (x j + h)) P +
        eval (Function.update (Function.update x i (x i - h)) j (x j - h)) P =
      4 * (h * h) * eval x (pderiv i (pderiv j P)) := by
  refine induction_of_totalDegree_le ?_ (fun P Q hP hQ => ?_) (fun d c hd => ?_) hP
  · simp
  · simp only [map_add]
    linear_combination hP + hQ
  · simp only [eval_update_update_monomial x d c hij]
    rw [eval_pderiv_monomial_of_ne x d c hij]
    linear_combination c * remaining x d i j * pow_mul_pow_mixed ((add_le_sum d hij).trans hd)
      (x i) (x j) h

/-- The order of two derivatives does not matter: on single variables both are zero. -/
theorem pderiv_comm (P : MvPolynomial (Fin n) K) (i j : Fin n) :
    pderiv i (pderiv j P) = pderiv j (pderiv i P) := by
  have hzero : ⁅(pderiv i : Derivation K (MvPolynomial (Fin n) K) (MvPolynomial (Fin n) K)),
      (pderiv j : Derivation K (MvPolynomial (Fin n) K) (MvPolynomial (Fin n) K))⁆ = 0 := by
    refine derivation_ext fun k => ?_
    have hconstant (i j : Fin n) : pderiv i (pderiv j (X k : MvPolynomial (Fin n) K)) = 0 := by
      rw [pderiv_X]
      by_cases hk : k = j
      · rw [hk, Pi.single_eq_same, pderiv_one]
      · rw [Pi.single_eq_of_ne hk, map_zero]
    rw [Derivation.commutator_apply, hconstant, hconstant, sub_self, Derivation.zero_apply]
  exact sub_eq_zero.mp (by rw [← Derivation.commutator_apply, hzero, Derivation.zero_apply])

end Differences

end NewtonRaphson
