import Mathlib
import NewtonRaphson.Proofs.ExactScalar
import NewtonRaphson.Proofs.OrderedScalar.Binary

/-! # Less or equal is transitive

What is within one tolerance is within every greater one.

* **`TransitiveScalar S`** — the law, which needs no more of a scalar than that it can be compared.
* **`Double.le_iff_rank`** — doubles have it because they are compared by a rank in a linear order,
  the undefined value apart, which is not compared at all. -/

namespace NewtonRaphson

/-- **Transitive scalars**: less or equal is transitive, whether or not every pair is ordered. -/
class TransitiveScalar (S : Type) [Scalar S] : Prop where
  le_trans : ∀ {x y z : S}, Scalar.le x y = true → Scalar.le y z = true → Scalar.le x z = true

instance {K : Type} [Field K] [LinearOrder K] [Scalar K] [ExactScalar K] : TransitiveScalar K where
  le_trans := by
    intro x y z hxy hyz
    rw [ExactScalar.le_eq, decide_eq_true_iff] at hxy hyz ⊢
    exact hxy.trans hyz

namespace Double

open Float.Model (UnpackedFloat)

/-- The **rank** of a double among all that are not undefined: first by its kind, from the negative
infinity to the positive one, then by exponent and mantissa, which count downwards below zero. -/
def rank : UnpackedFloat → ℤ ×ₗ ℤ ×ₗ ℤ
  | .notANumber => toLex (0, toLex (0, 0))
  | .infinity .negative => toLex (-2, toLex (0, 0))
  | .finite .negative m e _ => toLex (-1, toLex (-e, -m))
  | .zero _ => toLex (0, toLex (0, 0))
  | .finite .positive m e _ => toLex (1, toLex (e, m))
  | .infinity .positive => toLex (2, toLex (0, 0))

/-- Numbers of one sign are compared by exponent first and mantissa second. -/
theorem isLE_then_iff (e f : ℤ) (m n : ℕ) :
    ((compare e f).then (compare m n)).isLE = true ↔ e < f ∨ e = f ∧ m ≤ n := by
  rw [Ordering.isLE_then_iff_or, compare_lt_iff_lt, compare_eq_iff_eq, Nat.isLE_compare]

/-- Doubles are **compared by their rank**, the undefined value with none. -/
theorem le_iff_rank {u v : UnpackedFloat} :
    u.le v = true ↔ u ≠ .notANumber ∧ v ≠ .notANumber ∧ rank u ≤ rank v := by
  rcases u with (_ | _) | _ | _ | ⟨_ | _, m, e, hm⟩ <;> rcases v with
    (_ | _) | _ | _ | ⟨_ | _, n, f, hn⟩
  -- two numbers of one sign are compared by their parts, everything else by its kind
  case finite.negative.finite.negative =>
    have hreversed : (UnpackedFloat.finite .negative m e hm).le (.finite .negative n f hn) =
        ((compare f e).then (compare n m)).isLE := by
      have hexponent : compare f e = (compare e f).swap := Std.OrientedCmp.eq_swap
      have hmantissa : compare n m = (compare m n).swap := Std.OrientedCmp.eq_swap
      rw [hexponent, hmantissa, ← Ordering.swap_then]
      rfl
    rw [hreversed, isLE_then_iff]
    simp [rank, Prod.Lex.toLex_le_toLex, eq_comm]
  case finite.positive.finite.positive =>
    refine Iff.trans (isLE_then_iff e f m n) ?_
    simp [rank, Prod.Lex.toLex_le_toLex]
  all_goals simp [UnpackedFloat.le, UnpackedFloat.compare, rank, Prod.Lex.toLex_le_toLex]
  all_goals rfl

instance : TransitiveScalar Float where
  le_trans := by
    intro x y z hxy hyz
    rw [scalar_le_eq, le_iff_rank] at hxy hyz ⊢
    exact ⟨hxy.1, hyz.2.1, hxy.2.2.trans hyz.2.2⟩

end Double

end NewtonRaphson
