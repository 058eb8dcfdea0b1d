import NewtonRaphson.Proofs.Iteration.PlainLoop
import NewtonRaphson.Proofs.LinearSystem.Threshold
import NewtonRaphson.Proofs.Purity

/-! # The singularity factor only gates a step

The factor of the settings enters a step through the rank check of the Hessian and through nothing
else. Raising it either changes nothing or turns the step into one that ends with a singular Hessian
and leaves its point alone.

* **`Newton.outcome_of_atMost`** — the outcome of a step with a greater factor.
* **`Newton.step_of_factor_le`** — two steps with pure evaluators in worlds with factors in order.
* **`Newton.threshold_gates`** — rank check, solving and steps with thresholds in order. -/

namespace NewtonRaphson.Newton

open Iteration (unit unitWorld pointGradient unitHessian)

variable {S E : Type} [SingularValues S] [OrderedScalar S] [TransitiveScalar S] [MonotoneScalar S]
  [NonnegativeSingularValues S]

/-! ## (1) Outcomes -/

/-- **With a greater factor** the outcome is the same, or it is that the system has no trustworthy
solution. -/
theorem outcome_of_atMost {f g : S} (h : (Threshold.standard f).AtMost (.standard g))
    (x a b : DenseMatrix S) :
    outcome g x a b = outcome f x a b ∨ ∃ cause, outcome g x a b = .ok (.singular cause) := by
  by_cases hgradient : a.shape = (x.rows, 1)
  · by_cases hhessian : b.shape = (x.rows, x.rows)
    · cases hfinite : a.isFinite && b.isFinite with
      | false =>
        rw [outcome_of_not_finite hgradient hhessian hfinite,
          outcome_of_not_finite hgradient hhessian hfinite]
        exact .inl rfl
      | true =>
        rw [outcome_of_finite hgradient hhessian hfinite,
          outcome_of_finite hgradient hhessian hfinite]
        rcases solve_of_atMost h b a.neg with hsame | ⟨-, hrejected⟩
        · rw [hsame]
          exact .inl rfl
        · rw [hrejected]
          exact .inr ⟨_, rfl⟩
    · rw [outcome_of_hessian_shape hgradient hhessian, outcome_of_hessian_shape hgradient hhessian]
      exact .inl rfl
  · rw [outcome_of_gradient_shape hgradient, outcome_of_gradient_shape hgradient]
    exact .inl rfl

/-! ## (2) Steps -/

/-- **Two steps in worlds with factors in order**: the one with the greater factor ends as the other
does, at a point that holds the same, or it ends with a singular Hessian at a point that was left
alone. -/
theorem step_of_factor_le {known : Constants S} {df ddf : Evaluator S E} (hdf : df.Pure known)
    (hddf : ddf.Pure known) {x y : Value} {w v : World S E} (hw : w.Holds known)
    (hv : v.Holds known) (halike : w.Alike v x y)
    (h : (Threshold.standard w.settings.factor).AtMost (.standard v.settings.factor)) :
    ((step df ddf y v).1 = (step df ddf x w).1 ∧ (step df ddf y v).2.held y =
      (step df ddf x w).2.held x) ∨
      ((step df ddf y v).1 = .ok .singularHessian ∧ (step df ddf y v).2.held y = v.held y) := by
  obtain ⟨w', v', -, hgrows, hpaired,
      ⟨cause, hw, hv⟩ | ⟨r, q, m, a, b, rfl, rfl, hr, hq, hw, hv⟩⟩ :=
    step_cases_of_pure hdf hddf ⟨hw, hv, halike, rfl, rfl⟩
  · rw [hw, hv]
    exact .inl ⟨rfl, hpaired.alike.held_eq.symm⟩
  rw [hw, hv, finish, finish]
  rcases outcome_of_atMost h m a b with hsame | ⟨cause, hsingular⟩
  · left
    rw [hsame]
    rcases outcome w.settings.factor m a b with cause | o
    · exact ⟨rfl, hpaired.alike.held_eq.symm⟩
    · exact ⟨rfl, o.get?_settle_congr hq hr⟩
  · right
    rw [hsingular]
    cases halike with
    | matrix _ hbefore => exact ⟨rfl, (hgrows.held (.matrix q) _ hbefore).trans hbefore.symm⟩

/-- **The threshold of the rank check only gates.** For thresholds in order: a matrix that the lower
one rejects is rejected by the higher one, and a system that is solved with the higher one has the
same solution with the lower one; a matrix that is rejected is not solved for any right-hand side
that fits, but refused as singular; and two steps with pure evaluators, from points that hold the
same, in worlds that hold the constants of the evaluators and have singularity factors in order,
which are above zero like every factor that is accepted, end with the same status and the same point
or with the same fault, or the one with the greater factor ends with a singular Hessian and leaves
its point alone. -/
theorem threshold_gates :
    (∀ (t u : Threshold S), t.AtMost u → ∀ a b : DenseMatrix S,
      (a.isSingular t = .ok true → a.isSingular u = .ok true) ∧
      (∀ x, solve u a b = .ok x → solve t a b = .ok x)) ∧
    (∀ (t : Threshold S) (a b : DenseMatrix S), a.isSingular t = .ok true → b.rows = a.rows →
      a.precision = b.precision → ∃ cause, solve t a b = .error cause ∧ cause.kind = .singular) ∧
    (∀ (known : Constants S) (df ddf : Evaluator S E), df.Pure known → ddf.Pure known →
      ∀ (w v : World S E) (x y : Value), w.Holds known → v.Holds known → w.Alike v x y →
      Scalar.lt Scalar.zero w.settings.factor = true →
      Scalar.le w.settings.factor v.settings.factor = true →
      ((step df ddf y v).1 = (step df ddf x w).1 ∧ (step df ddf y v).2.held y =
        (step df ddf x w).2.held x) ∨
        ((step df ddf y v).1 = .ok .singularHessian ∧ (step df ddf y v).2.held y = v.held y)) := by
  refine ⟨fun t u h a b => ⟨DenseMatrix.isSingular_mono h, fun x hx => ?_⟩, ?_, ?_⟩
  · rcases solve_of_atMost h a b with hsame | ⟨-, hrejected⟩
    · exact hsame.symm.trans hx
    · rw [hrejected] at hx
      cases hx
  · intro t a b hdeficient hrows hprecision
    exact ⟨_, solve_of_deficient hdeficient hrows hprecision, rfl⟩
  · intro known df ddf hdf hddf w v x y hw hv halike hpos hle
    exact step_of_factor_le hdf hddf hw hv halike (.standard hpos hle)

/-! ### A factor that rejects everything -/

/-- The world of a point at one with a singularity factor that rejects every matrix. -/
def strictWorld : World Float Unit := { unitWorld with settings := ⟨.double, 1e20⟩ }

/-- A matrix that the threshold two rejects is rejected by the threshold three, and refused as
singular; it is solved with the threshold one half as with three quarters; and a step that succeeds
with the factor one ends with a singular Hessian where the factor is large. -/
theorem threshold_gates_of_strictWorld :
    unit.isSingular (.given 3.0) = .ok true ∧
      (∃ cause, solve (.given 2.0) unit unit = .error cause ∧ cause.kind = .singular) ∧
      (∃ x, solve (.given 0.75) unit unit = .ok x ∧ solve (.given 0.5) unit unit = .ok x) ∧
      (step pointGradient unitHessian (.matrix 0) unitWorld).1 = .ok .success ∧
      (step pointGradient unitHessian (.matrix 0) strictWorld).1 = .ok .singularHessian ∧
      (step pointGradient unitHessian (.matrix 0) strictWorld).2.held (.matrix 0) = some unit := by
  obtain ⟨hordered, hrejected, hsteps⟩ := threshold_gates (S := Float) (E := Unit)
  have hdeficient : unit.isSingular (.given 2.0) = .ok true :=
    Action.eq_ok_of_toOption (by decide +kernel)
  have hsolved : (solve (.given 0.75) unit unit).toOption.isSome = true := by decide +kernel
  obtain ⟨x, hx⟩ := Option.isSome_iff_exists.mp hsolved
  have hx : solve (.given 0.75) unit unit = .ok x := Action.eq_ok_of_toOption hx
  have hlower : (step pointGradient unitHessian (.matrix 0) unitWorld).1 = .ok .success :=
    Action.eq_ok_of_toOption (by decide +kernel)
  have hstep := hsteps Constants.none pointGradient unitHessian (Evaluator.pure_ofFunction _ _)
    (Evaluator.pure_ofFunction _ _) unitWorld strictWorld (.matrix 0) (.matrix 0)
    (World.holds_none _)
    (World.holds_none _) (.matrix rfl rfl) (by decide +kernel) (by decide +kernel)
  refine ⟨(hordered _ _ (.given (by decide +kernel)) unit unit).1 hdeficient,
    hrejected _ _ _ hdeficient rfl rfl,
    ⟨x, hx, (hordered _ _ (.given (by decide +kernel)) unit unit).2 x hx⟩, hlower, ?_⟩
  rcases hstep with ⟨hsame, -⟩ | hsingular
  · -- the greater factor does reject the Hessian
    have hdifferent : (step pointGradient unitHessian (.matrix 0) strictWorld).1.toOption ≠
        some .success := by
      decide +kernel
    rw [hsame, hlower] at hdifferent
    exact absurd rfl hdifferent
  · exact hsingular

end NewtonRaphson.Newton
