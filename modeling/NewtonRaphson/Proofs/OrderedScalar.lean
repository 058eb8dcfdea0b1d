import NewtonRaphson.Proofs.DenseMatrix

/-! # Ordered scalars

What comparisons of scalars have in common, whether every pair is ordered or some values are no
numbers.

* **`OrderedScalar S`** — the laws: on values that are ordered, strictly less is the opposite of
  less or equal; sums of squares and their roots are not below zero.
* **`OrderedScalar.lt_eq_not_le`** — two values that are ordered are compared by either relation
  alike.
* **`DenseMatrix.zero_le_norm`** — a matrix of numbers has a norm that is ordered, even if it
  overflows. -/

namespace NewtonRaphson

/-- A scalar is **ordered** if it can be compared, with itself at least. -/
def Scalar.isOrdered {S : Type} [Scalar S] (x : S) : Bool := le x x

/-- **Ordered scalars**: the comparisons are those of a linear order as far as values are ordered,
and no square, sum or root of what is not below zero is below zero, nor does it cease to be
ordered. -/
class OrderedScalar (S : Type) [Scalar S] : Prop where
  zero_le_zero : Scalar.le (Scalar.zero : S) Scalar.zero = true
  isOrdered_of_le : ∀ x y : S, Scalar.le x y = true →
    Scalar.isOrdered x = true ∧ Scalar.isOrdered y = true
  not_le_of_lt : ∀ x y : S, Scalar.lt x y = true → Scalar.le y x = false
  lt_of_not_le : ∀ x y : S, Scalar.isOrdered x = true → Scalar.isOrdered y = true →
    Scalar.le y x = false → Scalar.lt x y = true
  square_nonneg : ∀ (p : Precision) (x : S), Scalar.isFinite x = true →
    Scalar.le Scalar.zero (Scalar.mul p x x) = true
  add_nonneg : ∀ (p : Precision) (x y : S), Scalar.le Scalar.zero x = true →
    Scalar.le Scalar.zero y = true → Scalar.le Scalar.zero (Scalar.add p x y) = true
  sqrt_nonneg : ∀ (p : Precision) (x : S), Scalar.le Scalar.zero x = true →
    Scalar.le Scalar.zero (Scalar.sqrt p x) = true

variable {S : Type} [Scalar S] [OrderedScalar S]

namespace OrderedScalar

/-- Of two values that are ordered, one is strictly less exactly if the other is not less or
equal. -/
theorem lt_eq_not_le {x y : S} (hx : Scalar.isOrdered x = true) (hy : Scalar.isOrdered y = true) :
    Scalar.lt x y = !Scalar.le y x := by
  cases hle : Scalar.le y x with
  | false => exact lt_of_not_le x y hx hy hle
  | true =>
    refine Bool.eq_false_iff.mpr fun hlt => ?_
    rw [not_le_of_lt x y hlt] at hle
    cases hle

/-- A value that is not below zero is not strictly below it. -/
theorem not_lt_zero {x : S} (h : Scalar.le Scalar.zero x = true) :
    Scalar.lt x Scalar.zero = false := by
  refine Bool.eq_false_iff.mpr fun hlt => ?_
  rw [not_le_of_lt x _ hlt] at h
  cases h

end OrderedScalar

/-- A running sum of squares of numbers does not come below zero. -/
theorem DenseMatrix.zero_le_foldl_squares {p : Precision} {xs : List S}
    (h : ∀ x ∈ xs, Scalar.isFinite x = true) {s : S} (hs : Scalar.le Scalar.zero s = true) :
    Scalar.le Scalar.zero (xs.foldl (fun s x => Scalar.add p s (Scalar.mul p x x)) s) = true := by
  induction xs generalizing s with
  | nil => exact hs
  | cons x xs ih =>
    obtain ⟨hx, hxs⟩ := List.forall_mem_cons.mp h
    exact ih hxs (OrderedScalar.add_nonneg p s _ hs (OrderedScalar.square_nonneg p x hx))

/-- **The norm of a matrix of numbers is ordered** and not below zero. -/
theorem DenseMatrix.zero_le_norm {a : DenseMatrix S} (h : a.isFinite = true) :
    Scalar.le Scalar.zero a.norm = true := by
  refine OrderedScalar.sqrt_nonneg
    _ _ (zero_le_foldl_squares (fun x hx => ?_) OrderedScalar.zero_le_zero)
  obtain ⟨i, j, rfl⟩ := Grid.exists_get_of_mem_entries hx
  exact isFinite_iff.mp h i j

/-- A matrix whose norm is not ordered has an entry that is no number. -/
theorem DenseMatrix.isFinite_of_not_isOrdered_norm {a : DenseMatrix S}
    (h : Scalar.isOrdered a.norm = false) : a.isFinite = false := by
  refine Bool.eq_false_iff.mpr fun hfinite => ?_
  rw [(OrderedScalar.isOrdered_of_le _ _ (zero_le_norm hfinite)).2] at h
  cases h

end NewtonRaphson
