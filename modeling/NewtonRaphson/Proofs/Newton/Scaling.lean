import NewtonRaphson.Proofs.DenseMatrix.Exact
import NewtonRaphson.Proofs.Evaluator
import NewtonRaphson.Proofs.LinearSystem.Scaling

/-! # Steps do not depend on the unit of the objective

If an objective is multiplied by a number, so are its gradient and its Hessian, and the Newton
system keeps its solution. Over exact scalars with exact singular values a step with pure evaluators
therefore ends with the same status and at the same point.

* **`Newton.outcome_scale`** — the outcome of a step depends on no common factor of gradient and
  Hessian.
* **`Evaluator.scaled`** — the evaluator that multiplies every answer by a number.
* **`Newton.scale_invariant`** — a common factor that is not zero changes neither the rank check nor
  the condition number, neither solving nor a step. -/

namespace NewtonRaphson

/-! ## (1) Multiplied answers -/

namespace Evaluator

variable {S E : Type} [Scalar S]

/-- The evaluator that answers with the **multiple** of every matrix that another one answers
with. -/
def scaled (c : S) (f : Evaluator S E) : Evaluator S E := fun x => do
  match ← f x with
  | .matrix q =>
    let m ← Action.read q
    return .matrix (← Action.add (m.scale c))
  | .plain d => return .plain d

variable {f : Evaluator S E} {F : DenseMatrix S → Except Fault (DenseMatrix S)}

/-- After an answer its multiple is added. -/
theorem scaled_of_matrix (c : S) {x : Value} {w w' : World S E} {q : Ref}
    (h : f x w = (.ok (.matrix q), w')) :
    f.scaled c x w =
      (.ok (.matrix w'.store.size),
        { w' with store := w'.store.add ((w'.store.get q).scale c) }) := by
  rw [scaled, Action.bind_of_ok h]
  rfl

/-- **The multiples of a pure evaluator's answers are pure**, too. -/
theorem Computes.scaled (h : f.Computes F) (c : S) :
    (f.scaled c).Computes fun x => (F x).map (·.scale c) where
  answers := by
    intro r m v w hm hv
    rcases hu : F m with cause | u
    · rw [hu] at hv
      cases hv
    · rw [hu] at hv
      obtain rfl := Except.ok.inj hv
      obtain ⟨q, w', hf, hq⟩ := h.answers hm hu
      rw [scaled_of_matrix c hf, Store.get_of_get? hq]
      exact ⟨_, _, rfl, Store.get?_add_size _ _⟩
  refuses := by
    intro r m cause w hm hrefused q w' hmatrix
    obtain ⟨v, w₁, hf, hanswer⟩ := Action.bind_eq_ok_iff.mp hmatrix
    cases v with
    | matrix q₁ =>
      rcases hu : F m with cause' | u
      · exact h.refuses hm hu q₁ w₁ hf
      · rw [hu] at hrefused
        cases hrefused
    | plain d => cases hanswer
  leaves := by
    intro x y
    refine (h.leaves x y).bind fun v => ?_
    cases v with
    | matrix q =>
      exact (Action.leaves_read q y).bind fun m => (Action.leaves_add _ y).bind fun _ =>
        Action.leaves_pure _ y
    | plain d => exact Action.leaves_pure _ y
  settings := by
    intro x w
    have hsettings := h.settings x w
    rcases hf : f x w with ⟨cause | q | d, w'⟩
    · rw [hf] at hsettings
      rwa [Evaluator.scaled, Action.bind_of_error hf]
    · rw [hf] at hsettings
      rwa [scaled_of_matrix c hf]
    · rw [hf] at hsettings
      rwa [Evaluator.scaled, Action.bind_of_ok hf]

end Evaluator

/-! ## (2) What a step with pure evaluators comes to -/

namespace Newton

section Pure

variable {S E : Type} [SingularValues S] {df ddf : Evaluator S E}
variable {G H : DenseMatrix S → Except Fault (DenseMatrix S)}
variable (hdf : df.Computes G) (hddf : ddf.Computes H) {r : Ref} {w : World S E} {x : DenseMatrix S}
variable (hx : w.store.get? r = some x)
include hdf hddf hx

/-- At a column where both functions have values, status and point are those of the outcome. -/
theorem step_of_values {g h : DenseMatrix S} (hvector : x.isVector = true) (hg : G x = .ok g)
    (hh : H x = .ok h) :
    (step df ddf (.matrix r) w).1 = (outcome w.settings.factor x g h).map StepOutcome.status ∧
      (step df ddf (.matrix r) w).2.store.get? r =
        some (StepOutcome.pointAfter x (outcome w.settings.factor x g h)) := by
  obtain ⟨w₂, hx₂, -, hstep⟩ := step_of_computes hdf hddf hx hvector hg hh
  rw [hstep]
  rcases outcome w.settings.factor x g h with cause | o
  · exact ⟨rfl, hx₂⟩
  · exact ⟨rfl, StepOutcome.get?_settle hx₂⟩

/-- Elsewhere no status is returned, and the point stays. -/
theorem step_of_no_values (hno : ∀ g h, x.isVector = true → G x = .ok g → H x ≠ .ok h) :
    (step df ddf (.matrix r) w).1.toOption = none ∧
      (step df ddf (.matrix r) w).2.store.get? r = some x := by
  have hrefused : ∀ status, (step df ddf (.matrix r) w).1 ≠ .ok status := by
    intro status hs
    obtain ⟨g, h, hvector, hg, hh⟩ := exists_values_of_step_eq_ok hdf hddf hx (Prod.ext hs rfl)
    exact hno g h hvector hg hh
  constructor
  · rcases hs : (step df ddf (.matrix r) w).1 with cause | status
    · rfl
    · exact absurd hs (hrefused status)
  · exact held_step_of_ne_success (hdf.leaves _ (.matrix r)) (hddf.leaves _ (.matrix r)) hx
      (hrefused _)

end Pure

/-! ## (3) A common factor -/

section Factor

variable {K E : Type} [Field K] [LinearOrder K] [IsStrictOrderedRing K] [SingularValues K]
  [ExactScalar K]
variable [ExactSingularValues K] {c : K} (hc : c ≠ 0)
include hc

/-- **The outcome of a step** depends on no common factor of gradient and Hessian. -/
theorem outcome_scale (factor : K) (x g h : DenseMatrix K) :
    outcome factor x (g.scale c) (h.scale c) = outcome factor x g h := by
  by_cases hg : g.shape = (x.rows, 1)
  case neg =>
    exact (outcome_of_gradient_shape (g := g.scale c) hg).trans (outcome_of_gradient_shape hg).symm
  by_cases hh : h.shape = (x.rows, x.rows)
  case neg =>
    exact (outcome_of_hessian_shape (g := g.scale c) (h := h.scale c) hg hh).trans
      (outcome_of_hessian_shape hg hh).symm
  have hfinite (g h : DenseMatrix K) : (g.isFinite && h.isFinite) = true := by
    rw [DenseMatrix.isFinite_eq_true, DenseMatrix.isFinite_eq_true, Bool.and_self]
  rw [outcome_of_finite hg hh (hfinite g h)]
  rw [outcome_of_finite (g := g.scale c) (h := h.scale c) hg hh (hfinite _ _),
    DenseMatrix.neg_scale, solve_scale hc]

/-- A step with the multiples of pure evaluators returns the same status, if any, and leaves the
same point. -/
theorem step_scaled {df ddf : Evaluator K E} {G H : DenseMatrix K → Except Fault (DenseMatrix K)}
    (hdf : df.Computes G) (hddf : ddf.Computes H) {r : Ref} {w : World K E} {x : DenseMatrix K}
    (hx : w.store.get? r = some x) :
    (step (df.scaled c) (ddf.scaled c) (.matrix r) w).1.toOption =
      (step df ddf (.matrix r) w).1.toOption ∧
      (step (df.scaled c) (ddf.scaled c) (.matrix r) w).2.store.get? r =
        (step df ddf (.matrix r) w).2.store.get? r := by
  by_cases hvalues : ∃ g h, x.isVector = true ∧ G x = .ok g ∧ H x = .ok h
  · obtain ⟨g, h, hvector, hg, hh⟩ := hvalues
    obtain ⟨hstatus, hpoint⟩ := step_of_values hdf hddf hx hvector hg hh
    obtain ⟨hstatus', hpoint'⟩ := step_of_values (hdf.scaled c) (hddf.scaled c) hx hvector
      (congrArg (Except.map (·.scale c)) hg) (congrArg (Except.map (·.scale c)) hh)
    rw [hstatus, hpoint, hstatus', hpoint', outcome_scale hc]
    exact ⟨rfl, rfl⟩
  · -- the multiples have values exactly where the functions have
    have hno : ∀ g h, x.isVector = true → G x = .ok g → H x ≠ .ok h :=
      fun g h hvector hg hh => hvalues ⟨g, h, hvector, hg, hh⟩
    have hno' : ∀ g h, x.isVector = true → (G x).map (·.scale c) = .ok g →
        (H x).map (·.scale c) ≠ .ok h := by
      intro g h hvector hg hh
      rcases hG : G x with cause | g₀
      · rw [hG] at hg
        cases hg
      · rcases hH : H x with cause | h₀
        · rw [hH] at hh
          cases hh
        · exact hno g₀ h₀ hvector hG hH
    obtain ⟨hstatus, hpoint⟩ := step_of_no_values hdf hddf hx hno
    obtain ⟨hstatus', hpoint'⟩ := step_of_no_values (hdf.scaled c) (hddf.scaled c) hx hno'
    rw [hstatus, hpoint, hstatus', hpoint']
    exact ⟨rfl, rfl⟩

/-- **Nothing depends on the unit.** For a factor `c` that is not zero, of either sign: multiplying
a matrix by `c` changes neither its verdict with any threshold nor its condition number; multiplying
matrix and right-hand sides by `c` changes neither the solution nor the cause of a refusal; and
multiplying the answers of two pure evaluators by `c` changes neither the status of a step nor the
point it leaves. -/
theorem scale_invariant :
    (∀ (a : DenseMatrix K) threshold, (a.scale c).isSingular threshold = a.isSingular threshold) ∧
    (∀ a : DenseMatrix K, (a.scale c).conditioning = a.conditioning) ∧
    (∀ threshold (a b : DenseMatrix K),
      solve threshold (a.scale c) (b.scale c) = solve threshold a b) ∧
    (∀ (df ddf : Evaluator K E) G H, df.Computes G → ddf.Computes H → ∀ r w x,
      w.store.get? r = some x →
      (step (df.scaled c) (ddf.scaled c) (.matrix r) w).1.toOption =
      (step df ddf (.matrix r) w).1.toOption ∧
      (step (df.scaled c) (ddf.scaled c) (.matrix r) w).2.store.get? r =
        (step df ddf (.matrix r) w).2.store.get? r) :=
  ⟨DenseMatrix.isSingular_scale hc, DenseMatrix.conditioning_scale hc, solve_scale hc,
    fun _ _ _ _ hdf hddf _ _ _ hx => step_scaled hc hdf hddf hx⟩

end Factor

/-! ### A factor below zero -/

/-- The matrix with the rows `(0, 2)` and `(3, 0)`, over the real numbers. -/
noncomputable def realExchange : DenseMatrix ℝ :=
  ⟨.double, 2, 2, Nat.two_pos, Nat.two_pos, .ofFn fun i j => if i = j then 0 else if i < j then
    (2 : ℕ) else (3 : ℕ)⟩

/-- The column `(4, 9)`. -/
noncomputable def realSide : DenseMatrix ℝ :=
  ⟨.double, 2, 1, Nat.two_pos, Nat.one_pos, .ofFn fun i _ => if i.val = 0 then (4 : ℕ) else (9 : ℕ)⟩

/-- The gradient of the system of these two. -/
noncomputable def realGradient : Evaluator ℝ Unit :=
  .ofFunction (DenseMatrix.residual realExchange realSide)

/-- The Hessian of this system. -/
noncomputable def realHessian : Evaluator ℝ Unit := .ofFunction fun _ => .ok realExchange

/-- The world that holds nothing but a start of two zeros. -/
noncomputable def realWorld : World ℝ Unit :=
  ⟨⟨#[.zeros .double 2 1 Nat.two_pos Nat.one_pos]⟩, .initial, .initial, ()⟩

/-- The factor minus two changes nothing about this system. -/
theorem scale_invariant_of_realExchange :
    (realExchange.scale (-2)).isSingular (.given (1 / 2)) =
    realExchange.isSingular (.given (1 / 2)) ∧
    (realExchange.scale (-2)).conditioning = realExchange.conditioning ∧
    solve (.given (1 / 2)) (realExchange.scale (-2)) (realSide.scale (-2)) =
      solve (.given (1 / 2)) realExchange realSide ∧
    (step (realGradient.scaled (-2)) (realHessian.scaled (-2)) (.matrix 0) realWorld).1.toOption =
      (step realGradient realHessian (.matrix 0) realWorld).1.toOption ∧
    (step (realGradient.scaled (-2)) (realHessian.scaled (-2)) (.matrix 0) realWorld).2.store.get?
      0 = (step realGradient realHessian (.matrix 0) realWorld).2.store.get? 0 := by
  have hfactor : (-2 : ℝ) ≠ 0 := by norm_num
  obtain ⟨hverdict, hratio, hsolve, hstep⟩ := @scale_invariant ℝ Unit _ _ _ _ _ _ (-2) hfactor
  refine ⟨hverdict _ _, hratio _, hsolve _ _ _, ?_⟩
  exact hstep realGradient realHessian _ _ (Evaluator.computes_ofFunction _)
    (Evaluator.computes_ofFunction _) 0 realWorld _ rfl

end Newton

end NewtonRaphson
