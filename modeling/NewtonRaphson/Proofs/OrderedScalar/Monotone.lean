import NewtonRaphson.Proofs.Double.Order
import NewtonRaphson.SingularValues

/-! # Multiplication is monotone

A threshold is compared after it was multiplied by the largest singular value, and the standard one
is itself a product. Raising it raises these products, however they are rounded.

* **`MonotoneScalar S`** — the laws: multiplication by what is above zero keeps the order, as far as
  products are defined.
* **`standardThreshold_le`** — a greater factor has no smaller standard threshold. -/

namespace NewtonRaphson

/-- **Monotone scalars**: multiplication by what is not at most zero keeps the order. A factor that
is no number does so where the smaller product is defined and not below zero. -/
class MonotoneScalar (S : Type) [Scalar S] : Prop where
  le_antisymm : ∀ {x y : S}, Scalar.le x y = true → Scalar.le y x = true → Scalar.eq x y = true
  mul_le_mul : ∀ {x y z : S}, Scalar.le x y = true → Scalar.le z Scalar.zero = false →
    (Scalar.isFinite z = true ∨ Scalar.le Scalar.zero (Scalar.mul .double x z) = true) →
    Scalar.le (Scalar.mul .double x z) (Scalar.mul .double y z) = true
  zero_le_mul : ∀ {x y : S}, Scalar.lt Scalar.zero x = true → Scalar.lt Scalar.zero y = true →
    Scalar.le Scalar.zero (Scalar.mul .double x y) = true
  ofNat_pos : ∀ {n : Nat}, 0 < n → Scalar.lt Scalar.zero (Scalar.ofNat n : S) = true
  epsilon_pos : ∀ p : Precision, Scalar.lt Scalar.zero (Scalar.epsilon p : S) = true
  epsilon_isFinite : ∀ p : Precision, Scalar.isFinite (Scalar.epsilon p : S) = true

/-! ## (1) Instances -/

instance : MonotoneScalar ℚ where
  le_antisymm := by
    intro x y hxy hyx
    rw [ExactScalar.le_eq, decide_eq_true_iff] at hxy hyx
    rw [ExactScalar.eq_eq, decide_eq_true_iff]
    exact hxy.antisymm hyx
  mul_le_mul := by
    intro x y z hxy hz _
    simp only [ExactScalar.le_eq, ExactScalar.mul_eq, ExactScalar.zero_eq, decide_eq_true_iff,
      decide_eq_false_iff_not, not_le] at *
    exact mul_le_mul_of_nonneg_right hxy hz.le
  zero_le_mul := by
    intro x y hx hy
    simp only [ExactScalar.le_eq, ExactScalar.lt_eq, ExactScalar.mul_eq, ExactScalar.zero_eq,
      decide_eq_true_iff] at *
    exact mul_nonneg hx.le hy.le
  ofNat_pos := by
    intro n hn
    rw [ExactScalar.lt_eq, ExactScalar.zero_eq, ExactScalar.ofNat_eq, decide_eq_true_iff]
    exact Nat.cast_pos.mpr hn
  epsilon_pos p := by cases p <;> decide +kernel
  epsilon_isFinite _ := rfl

instance : MonotoneScalar Float where
  le_antisymm := Double.le_antisymm
  mul_le_mul := Double.mul_le_mul
  zero_le_mul := Double.zero_le_mul
  ofNat_pos := by
    intro n hn
    exact (Double.aboveZero_ofInt (Int.natCast_pos.mpr hn)).scalar_lt
  epsilon_pos p := by cases p <;> decide +kernel
  epsilon_isFinite p := by cases p <;> decide +kernel

/-! ## (2) The standard threshold -/

/-- **A greater factor has no smaller standard threshold.** -/
theorem standardThreshold_le {S : Type} [Scalar S] [OrderedScalar S] [MonotoneScalar S] {f g : S}
    (hf : Scalar.lt Scalar.zero f = true) (h : Scalar.le f g = true) {n : Nat} (hn : 0 < n)
    (p : Precision) : Scalar.le (standardThreshold f n p) (standardThreshold g n p) = true := by
  have hrows : Scalar.lt Scalar.zero (Scalar.ofNat n : S) = true := MonotoneScalar.ofNat_pos hn
  have hproduct : Scalar.le (Scalar.mul .double f (Scalar.ofNat n))
      (Scalar.mul .double g (Scalar.ofNat n)) = true :=
    MonotoneScalar.mul_le_mul h (OrderedScalar.not_le_of_lt _ _ hrows)
      (.inr (MonotoneScalar.zero_le_mul hf hrows))
  exact MonotoneScalar.mul_le_mul hproduct
    (OrderedScalar.not_le_of_lt _ _ (MonotoneScalar.epsilon_pos p))
    (.inl (MonotoneScalar.epsilon_isFinite p))

end NewtonRaphson
