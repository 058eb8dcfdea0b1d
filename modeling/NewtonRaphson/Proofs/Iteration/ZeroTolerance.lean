import NewtonRaphson.Proofs.DenseMatrix.Norm
import NewtonRaphson.Proofs.Iteration.Contract

/-! # Iterations without tolerance

With a tolerance of zero a run has converged where the norm of the gradient is zero, and this is not
where the gradient is: the squares of faint entries vanish, so that a gradient of such entries has
the norm zero.

* **`Iteration.zeroTolerance_contract`** — which matrices have the norm zero, and when a run without
  tolerance has converged.
* **`Iteration.converged_at_faint`** — a run that has converged where the gradient is not zero. -/

namespace NewtonRaphson

namespace Iteration

/-- **What a norm of zero tells**, and what convergence without a tolerance does. The norm of a
matrix is zero exactly if the squares of all its entries vanish, which in double precision are those
up to `2 ^ (-1075)`, in single precision those up to `2 ^ (-150)`. A run whose tolerance is zero has
converged exactly if its last step succeeded and the gradient that it compared last is such a
matrix. -/
theorem zeroTolerance_contract {E : Type} (df ddf : Evaluator Float E) (limits : Limits Float)
    (callback : Option (Callback Float E)) (x : Value) (w : World Float E)
    (ht : Scalar.eq limits.tolerance Scalar.zero = true) :
    (∀ m : DenseMatrix Float, m.Representable →
      (Scalar.eq m.norm Scalar.zero = true ↔
        ∀ i j, ∃ b, Binary.ofFloat? (m.grid.get i j) = some b ∧
          b.magnitude ^ 2 ≤ 2 ^ (m.precision.least - 1))) ∧
    ∀ fuel result w', run fuel df ddf limits callback x w = (.ok (some result), w') →
      ∃ w₁ g w₂, Compares df ddf limits callback x w result.final.steps result.final.status w₁ ∧
        df x w₁ = (.ok (.matrix g), w₂) ∧
        ((w₂.store.get g).Representable →
          (result.converged = true ↔ result.final.status = .success ∧
            (w₂.store.get g).SquaresVanish)) := by
  constructor
  · exact fun m hm => hm.norm_eq_zero_iff
  · intro fuel result w' hrun
    obtain ⟨-, q, w₂, hq, -, -, rfl, -⟩ := run_eq_some_iff.mp hrun
    obtain ⟨w₁, hcompares, hnorm⟩ := hq.exists_compares
    obtain ⟨g, hg, hvalue⟩ := gradientNorm_eq_ok_iff.mp hnorm
    refine ⟨w₁, g, w₂, hcompares, hg, fun hrepresentable => ?_⟩
    refine hasConverged_iff.trans (and_congr_right fun _ => ?_)
    rw [hvalue]
    exact hrepresentable.norm_le_iff ht

/-- The column with the one entry `1e-200`. -/
def faint : DenseMatrix Float := .ofFn .double Nat.one_pos Nat.one_pos fun (_ _ : Fin 1) => 1e-200

/-- The world that holds nothing but this column. -/
def faintWorld : World Float Unit := ⟨⟨#[faint]⟩, .initial, .initial, ()⟩

/-- **A norm of zero** of a column that is not zero, and a run without tolerance from this column,
whose gradient is the point itself, that has converged at once. -/
theorem converged_at_faint :
    faint.isFinite = true ∧ faint.grid.all (Scalar.eq · Scalar.zero) = false ∧
      Scalar.eq faint.norm Scalar.zero = true ∧
      ((run 0 pure pure ⟨0.0, none, false⟩ none (.matrix 0) faintWorld).1.toOption.join.map
        fun result => result.converged) = some true := by
  decide +kernel

/-- The square of its entry vanishes. The run compares the column before the first step, has
converged there, and tells that the squares of its entries vanish. -/
theorem zeroTolerance_contract_of_faint :
    faint.SquaresVanish ∧ ∃ result w' g,
      run 0 pure pure ⟨0.0, none, false⟩ none (.matrix 0) faintWorld = (.ok (some result), w') ∧
        (pure (.matrix 0) : Action Float Unit Value) faintWorld = (.ok (.matrix g), faintWorld) ∧
        result.final.status = .success ∧ (faintWorld.store.get g).SquaresVanish := by
  obtain ⟨hnorm, hrun⟩ :=
    zeroTolerance_contract (E := Unit) pure pure ⟨0.0, none, false⟩ none (.matrix 0) faintWorld
    (by decide +kernel)
  refine ⟨(hnorm faint fun _ _ => True.intro).mp (by decide +kernel), ?_⟩
  have hstart :
      ((run 0 pure pure ⟨0.0, none, false⟩ none (.matrix 0) faintWorld).1.toOption.join.map
      fun result => (result.converged, result.final.steps)) = some (true, 0) := by
    decide +kernel
  obtain ⟨result, hresult, hfacts⟩ := Action.exists_eq_of_map_eq_some hstart
  obtain ⟨hconverged, hsteps⟩ := Prod.mk.inj hfacts
  obtain ⟨w₁, g, w₂, hcompares, hg, hiff⟩ := hrun _ _ _ hresult
  -- no step was taken, so the gradient is the one of the start
  rw [hsteps] at hcompares
  obtain ⟨hw, hstatus⟩ : w₁ = faintWorld ∧ result.final.status = .success := by
    generalize result.final.status = status at hcompares
    cases hcompares
    exact ⟨rfl, rfl⟩
  subst hw
  cases hg
  have hrepresentable : (faintWorld.store.get 0).Representable := fun _ _ => True.intro
  exact ⟨result, _, 0, hresult, rfl, hstatus, ((hiff hrepresentable).mp hconverged).2⟩

end Iteration

end NewtonRaphson
