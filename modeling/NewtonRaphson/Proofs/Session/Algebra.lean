import NewtonRaphson.Proofs.DenseMatrix.Algebra
import NewtonRaphson.Proofs.Session.Names

/-! # The laws of matrices

The laws of algebra hold of exact scalars, where both sides of a law are refused for the same
operands. That exchanging rows and columns twice gives a matrix back is no matter of arithmetic: it
holds of every entry, and of the commands as well.

* **`Session.run_transpose_twice`** — rows and columns exchanged twice, by commands.
* **`Session.matrix_laws`** — all laws. -/

namespace NewtonRaphson

namespace Session

variable {w : World Float Caller} {name : String} {r : Ref} {m : DenseMatrix Float}

/-- **Rows and columns exchanged twice**: a new matrix that is the one of the name, which is
unchanged like all others. -/
theorem run_transpose_twice (fuel : Nat) (h : Holds w name r m) (target : String)
    (target' : Option String) :
    ∃ w₁ w₂, run fuel (.transpose (some target) name) w = (.ok (.matrix m.transpose), w₁) ∧
      run fuel (.transpose target' target) w₁ = (.ok (.matrix m), w₂) ∧
      ∀ q n, w.store.get? q = some n → w₂.store.get? q = some n := by
  have hsecond := run_transpose fuel (holds_delivered target m.transpose w) target'
  rw [DenseMatrix.transpose_transpose] at hsecond
  exact ⟨_, _, run_transpose fuel h (some target), hsecond,
    fun q n hq => get?_delivered (get?_delivered hq _ _) _ _⟩

open DenseMatrix (identity transpose)

/-- **The laws of matrices.** For matrices of exact scalars, of any shapes and precisions: products
associate, distribute over sums, and are reversed when rows and columns are exchanged; one side of
each of these laws is refused exactly if the other is; and the identity matrices of the right sizes
are neutral. For a matrix of doubles, whatever its entries are: exchanging rows and columns twice
gives a matrix with its entries, shape and precision, while it is left unchanged itself. -/
theorem matrix_laws {K : Type} [CommRing K] [Scalar K] [RingScalar K] (a b c : DenseMatrix K)
    (fuel : Nat) (h : Holds w name r m) (target : String) (target' : Option String) :
    (do (← a.mul b).mul c).toOption = (do a.mul (← b.mul c)).toOption ∧
    (do a.mul (← b.add c)).toOption = (do (← a.mul b).add (← a.mul c)).toOption ∧
    ((a.mul b).map transpose).toOption = (b.transpose.mul a.transpose).toOption ∧
    (identity a.precision a.rows a.rows_pos).mul a = .ok a ∧
    a.mul (identity a.precision a.cols a.cols_pos) = .ok a ∧
    ∃ w₁ w₂, run fuel (.transpose (some target) name) w = (.ok (.matrix m.transpose), w₁) ∧
      run fuel (.transpose target' target) w₁ = (.ok (.matrix m), w₂) ∧
      ∀ q n, w.store.get? q = some n → w₂.store.get? q = some n :=
  ⟨DenseMatrix.mul_assoc_or_refused a b c, DenseMatrix.mul_add_or_refused a b c,
    DenseMatrix.transpose_mul_or_refused a b, DenseMatrix.identity_mul a,
    DenseMatrix.mul_identity a, run_transpose_twice fuel h target target'⟩

/-- A column of two rational numbers. -/
def rationalColumn : DenseMatrix ℚ := .ofFn .double Nat.two_pos Nat.one_pos fun i _ => i + 1

/-- The column times its transpose times the column is defined, and comes to the same either way;
its columns cannot be multiplied with each other, and this is refused on both sides. -/
theorem matrix_laws_of_column :
    Holds twoNames "x" 0 oneTwo ∧
      (∃ m, (do (← rationalColumn.mul rationalColumn.transpose).mul rationalColumn) = .ok m ∧
        (do rationalColumn.mul (← rationalColumn.transpose.mul rationalColumn)).toOption = some m) ∧
      (do rationalColumn.mul (← rationalColumn.mul rationalColumn)).toOption = none := by
  have hlaws (b : DenseMatrix ℚ) :=
    matrix_laws rationalColumn b rationalColumn 0 holds_twoNames_x "x" none
  refine ⟨holds_twoNames_x, ⟨_, rfl, (hlaws rationalColumn.transpose).1.symm⟩, ?_⟩
  exact (hlaws rationalColumn).1.symm

end Session

end NewtonRaphson
