import NewtonRaphson.Proofs.Iteration.StopReason
import NewtonRaphson.Proofs.Newton.Exact

/-! # Linear gradients take one step

With a gradient that is linear in the point, over exact scalars, the first step leads to the zero of
the gradient. An iteration that is not within its tolerance at the start is there after one step.

* **`Iteration.exists_run_of_wellPosed`** — the two courses of a run on a well-posed linear system.
* **`Iteration.newton_law`** — Newton's law for every step that succeeds, and what a step and a run
  do on a well-posed linear system. -/

namespace NewtonRaphson

namespace Iteration

/-! ## (1) The start of a run -/

/-- A bound of at least one step is not reached before the first. -/
theorem atBound_start {S : Type} {limits : Limits S}
    (hbound : ∀ n, limits.stepBound = some n → 1 ≤ n) (norm : S) :
    atBound limits ⟨0, .success, norm, []⟩ = false := by
  refine Bool.eq_false_iff.mpr fun h => ?_
  obtain ⟨n, hn, hle⟩ := atBound_iff.mp h
  have hone : 1 ≤ n := hbound n hn
  have hzero : n ≤ 0 := hle
  omega

/-! ## (2) Linear gradients -/

variable {K E : Type} [Field K] [LinearOrder K] [SingularValues K] [ExactScalar K]

/-- A tolerance that is not negative and a bound of at least one step are accepted. -/
theorem accepted_of_nonneg {limits : Limits K} (htolerance : 0 ≤ limits.tolerance)
    (hbound : ∀ n, limits.stepBound = some n → 1 ≤ n) : Accepted limits := by
  constructor
  · rw [ExactScalar.lt_eq, ExactScalar.zero_eq]
    exact decide_eq_false (not_lt.mpr htolerance)
  · cases hlimit : limits.stepBound with
    | none => rfl
    | some n =>
      have hn : 1 ≤ n := hbound n hlimit
      exact decide_eq_false (by omega)

variable [IsStrictOrderedRing K]

/-- **The two courses of a run on a well-posed system**, with its residual for the gradient and its
matrix for the Hessian: a run that starts within the tolerance takes no step, any other one takes
one step and ends at the solution. -/
theorem exists_run_of_wellPosed {df ddf : Evaluator K E} {r : Ref} {w : World K E}
    {a b x g solution : DenseMatrix K} (h : Newton.WellPosed w.settings.factor a b x)
    (hdf : df.Computes (DenseMatrix.residual a b)) (hddf : ddf.Computes fun _ => .ok a)
    (hx : w.store.get? r = some x) (hsolution : a.mul solution = .ok b)
    (hg : DenseMatrix.residual a b x = .ok g) {limits : Limits K}
    (htolerance : 0 ≤ limits.tolerance) (hbound : ∀ n, limits.stepBound = some n → 1 ≤ n)
    (hroot : ∀ p, Scalar.sqrt p (0 : K) = 0) {fuel : ℕ} (hfuel : 1 ≤ fuel) :
    ∃ result w', run fuel df ddf limits none (.matrix r) w = (.ok (some result), w') ∧
      result.converged = true ∧
      if g.norm ≤ limits.tolerance then result.final.steps = 0 ∧ w'.store.get? r = some x
      else result.final.steps = 1 ∧ result.final.gradientNorm = 0 ∧
        w'.store.get? r = some solution := by
  have hacc : Accepted limits := accepted_of_nonneg htolerance hbound
  obtain ⟨w₁, hnorm, hx₁, hsettings⟩ := gradientNorm_of_computes hdf hx hg
  have hstart : Reached df ddf limits none (.matrix r) w ⟨0, .success, g.norm, []⟩ w₁ :=
    .start hnorm
  by_cases hwithin : g.norm ≤ limits.tolerance
  · have hconverged : hasConverged limits ⟨0, .success, g.norm, []⟩ = true :=
      hasConverged_iff.mpr ⟨rfl, (ExactScalar.le_eq _ _).trans (decide_eq_true hwithin)⟩
    refine ⟨_, _, run_of_hasConverged hacc hstart hconverged (Nat.zero_le _), hconverged, ?_⟩
    rw [if_pos hwithin]
    exact ⟨rfl, hx₁⟩
  · -- the step leads to the solution, where the residual is zero
    have hgo : isOver limits ⟨0, .success, g.norm, []⟩ = false :=
      isOver_eq_false_iff.mpr ⟨rfl, (ExactScalar.le_eq _ _).trans (decide_eq_false hwithin),
        atBound_start hbound _⟩
    rw [← hsettings] at h
    obtain ⟨w₂, hstep, hx₂⟩ := h.exists_step hdf hddf hx₁ hsolution
    obtain ⟨g', hg', hzero⟩ := DenseMatrix.exists_residual_of_mul hsolution
    obtain ⟨w₃, hnorm', hx₃, -⟩ := gradientNorm_of_computes hdf hx₂ hg'
    rw [DenseMatrix.norm_of_isZero hzero, hroot] at hnorm'
    have hadvance : advance df ddf limits none (.matrix r) ⟨0, .success, g.norm, []⟩ w₁ =
        (.ok ⟨1, .success, 0, kept limits.keepHistory (w₂.store.get r)⟩, w₃) :=
      advance_eq_ok_iff.mpr ⟨r, .success, w₂, w₂, 0, rfl, hstep, rfl, hnorm', rfl⟩
    have hconverged :
        hasConverged limits ⟨1, .success, 0, kept limits.keepHistory (w₂.store.get r)⟩ = true :=
      hasConverged_iff.mpr ⟨rfl, (ExactScalar.le_eq _ _).trans (decide_eq_true htolerance)⟩
    refine ⟨_, _, run_of_hasConverged hacc (hstart.advance hgo hadvance) hconverged hfuel,
      hconverged, ?_⟩
    rw [if_neg hwithin]
    exact ⟨rfl, rfl, hx₃⟩

/-- **Newton's law.** Over exact scalars, with pure evaluators: a step that succeeds leads along the
solution of the Newton system at the old point, and the new point is the old one exactly if the
gradient is zero; and if the gradient is the residual of a well-posed linear system and the Hessian
its matrix, then the system has only one solution, a step succeeds and leaves the point there, and a
run converges, without a step if it starts within its tolerance and else after one step, with the
norm zero, at that solution. -/
theorem newton_law (df ddf : Evaluator K E) (r : Ref) (w : World K E) (x : DenseMatrix K)
    (hx : w.store.get? r = some x) :
    (∀ G H, df.Computes G → ddf.Computes H → (Newton.step df ddf (.matrix r) w).1 = .ok .success →
      ∃ g h new way, G x = .ok g ∧ H x = .ok h ∧
        (Newton.step df ddf (.matrix r) w).2.store.get? r = some new ∧ new.sub x = .ok way ∧
        h.mul way = .ok g.neg ∧ (new = x ↔ g.IsZero)) ∧
    (∀ a b, Newton.WellPosed w.settings.factor a b x → df.Computes (DenseMatrix.residual a b) →
      (ddf.Computes fun _ => .ok a) →
      ∃ g solution w₁, DenseMatrix.residual a b x = .ok g ∧ a.mul solution = .ok b ∧
        (∀ y, a.mul y = .ok b → y = solution) ∧
        Newton.step df ddf (.matrix r) w = (.ok .success, w₁) ∧ w₁.store.get? r = some solution ∧
        ((∀ p, Scalar.sqrt p (0 : K) = 0) → ∀ limits : Limits K, 0 ≤ limits.tolerance →
          (∀ n, limits.stepBound = some n → 1 ≤ n) → ∀ fuel : ℕ, 1 ≤ fuel →
          ∃ result w', run fuel df ddf limits none (.matrix r) w = (.ok (some result), w') ∧
            result.converged = true ∧
            if g.norm ≤ limits.tolerance then result.final.steps = 0 ∧ w'.store.get? r = some x
            else result.final.steps = 1 ∧ result.final.gradientNorm = 0 ∧
              w'.store.get? r = some solution)) := by
  constructor
  · intro G H hdf hddf hs
    exact Newton.exists_law_of_step hdf hddf hx hs
  · intro a b h hdf hddf
    obtain ⟨g, solution, way, hg, -, hsolution, hunique⟩ := h.exists_outcome
    obtain ⟨w₁, hstep, hx₁⟩ := h.exists_step hdf hddf hx hsolution
    refine ⟨g, solution, w₁, hg, hsolution, hunique, hstep, hx₁, ?_⟩
    intro hroot limits htolerance hbound fuel hfuel
    exact exists_run_of_wellPosed h hdf hddf hx hsolution hg htolerance hbound hroot hfuel

/-! ### A run that needs a row exchange -/

section Exchange

attribute [local instance] monomialSingularValues

/-- The gradient of the system with the matrix `exchange` and the right-hand side `(4, 9)`. -/
def exchangeGradient : Evaluator ℚ Unit := .ofFunction (DenseMatrix.residual exchange fourAndNine)

/-- The Hessian of that system. -/
def exchangeHessian : Evaluator ℚ Unit := .ofFunction fun _ => .ok exchange

/-- A start of two zeros. -/
def exchangeStart : DenseMatrix ℚ := .zeros .double 2 1 Nat.two_pos Nat.one_pos

/-- The world that holds nothing but the start. -/
def exchangeWorld : World ℚ Unit := ⟨⟨#[exchangeStart]⟩, .initial, .initial, ()⟩

/-- The singular values of the matrix with a single entry in each row and column are faithful. -/
theorem faithful_exchange : exchange.FaithfulSingularValues := by
  have hregular : ¬ exchange.Degenerate := by
    intro hdegenerate
    have hfails := (solve?_square_eq_none_iff (a := exchange) rfl fourAndNine.grid).mpr hdegenerate
    exact absurd hfails (by decide +kernel)
  intro v hv
  have hdefined : exchange.singularValues =
      .ok (some (monomialSingularValues.singularValues .double exchange.grid)) :=
    DenseMatrix.singularValues_mk .double Nat.two_pos exchange.grid
  rw [hdefined] at hv
  obtain rfl := Option.some.inj (Except.ok.inj hv)
  exact ⟨by
    decide +kernel, fun hzero => absurd hzero (by decide +kernel), fun h => absurd h hregular⟩

/-- The system is well posed at every start that fits, in particular at this one. -/
theorem wellPosed_exchange :
    Newton.WellPosed exchangeWorld.settings.factor exchange fourAndNine exchangeStart where
  side := rfl
  start := rfl
  side_precision := rfl
  start_precision := rfl
  faithful := faithful_exchange
  factor_nonneg := by decide +kernel
  epsilon_nonneg := by decide +kernel
  accepted := by
    have haccepted : (exchange.isSingular (.standard exchangeWorld.settings.factor)).toOption =
        some false := by decide +kernel
    exact Action.eq_ok_of_toOption haccepted

/-- From two zeros the step to the solution goes along the solution of the Newton system, and a run
takes this step and no other. -/
theorem newton_law_of_exchange :
    ∃ g new way, DenseMatrix.residual exchange fourAndNine exchangeStart = .ok g ∧
      new.sub exchangeStart = .ok way ∧ exchange.mul way = .ok g.neg ∧
      exchange.mul new = .ok fourAndNine ∧
      ∃ result w', run 1 exchangeGradient exchangeHessian ⟨0, none, true⟩ none (.matrix 0)
          exchangeWorld = (.ok (some result), w') ∧
        result.converged = true ∧ result.final.steps = 1 ∧ result.final.gradientNorm = 0 ∧
        w'.store.get? 0 = some new := by
  have hdf := Evaluator.computes_ofFunction (E := Unit) (DenseMatrix.residual exchange fourAndNine)
  have hddf := Evaluator.computes_ofFunction (E := Unit) fun _ : DenseMatrix ℚ => .ok exchange
  obtain ⟨hlaw, hlinear⟩ :=
    newton_law exchangeGradient exchangeHessian 0 exchangeWorld exchangeStart rfl
  obtain ⟨g, solution, w₁, hg, hsolution, -, hstep, hx₁, hrun⟩ :=
    hlinear exchange fourAndNine wellPosed_exchange hdf hddf
  obtain ⟨g', h, new, way, hg', hh, hnew, hsub, hmul, -⟩ :=
    hlaw _ _ hdf hddf (congrArg Prod.fst hstep)
  -- both parts speak of the same gradient, Hessian and new point
  obtain rfl := Except.ok.inj (hg'.symm.trans hg)
  obtain rfl := Except.ok.inj hh
  rw [hstep, hx₁] at hnew
  obtain rfl := Option.some.inj hnew
  have hroot : Rat.sqrt 0 = 0 := by decide +kernel
  obtain ⟨result, w', hrun, hconverged, hcourse⟩ :=
    hrun (fun _ => hroot) ⟨0, none, true⟩ (le_refl 0) nofun 1 (le_refl 1)
  -- the residual at the start is the negated right-hand side
  have hfar : ¬ g'.norm ≤ 0 := by
    have hnorm : (DenseMatrix.residual exchange fourAndNine exchangeStart).toOption.map
        (fun g => decide (g.norm ≤ 0)) = some false := by decide +kernel
    rw [hg] at hnorm
    exact of_decide_eq_false (Option.some.inj hnorm)
  rw [if_neg hfar] at hcourse
  exact ⟨g', solution, way, hg, hsub, hmul, hsolution, result, w', hrun, hconverged, hcourse⟩

end Exchange

end Iteration

end NewtonRaphson
