import NewtonRaphson.Proofs.Iteration.StopReason

/-! # What an iteration checks of its contract

A step checks all that it is given: its point is a column, its evaluators answer with matrices, and
these fit the point. The gradient that an iteration compares with its tolerance is asked for outside
of any step, and of that answer nothing is checked, except that it has a norm:

* **`Newton.WellShaped`** — point and derivatives are as a step needs them.
* **`Newton.Misfit`**, **`Newton.PlainAnswer`** — the ways in which they are not, and what a step
  makes of it.
* **`Iteration.Compares`** — where an iteration asks for a gradient to compare.
* **`Iteration.run_contract`** — what a run refuses for which cause, and when it has converged. -/

namespace NewtonRaphson

variable {S E : Type}

/-! ## (1) The contract of a step -/

namespace Newton

section Contract

variable [Scalar S] (df ddf : Evaluator S E) (r : Ref) (w : World S E)

/-- Point and derivatives are **well shaped** in a world: the point is a column, and the evaluators
answer with matrices that fit it. -/
structure WellShaped : Prop where
  /-- The point is a column. -/
  point : (w.store.get r).isVector = true
  /-- The gradient is a column with the rows of the point, the Hessian a square with as many. -/
  derivatives : ∃ g h w₁ w₂, df (.matrix r) w = (.ok (.matrix g), w₁) ∧
    ddf (.matrix r) w₁ = (.ok (.matrix h), w₂) ∧
    (w₂.store.get g).shape = ((w₂.store.get r).rows, 1) ∧
    (w₂.store.get h).shape = ((w₂.store.get r).rows, (w₂.store.get r).rows)

/-- A matrix has a **wrong shape**: the fault that says so, and the world in which it is found. -/
inductive Misfit : Fault → World S E → Prop
  /-- The point is no column. -/
  | point (hx : (w.store.get r).isVector = false) : Misfit (.pointShape (w.store.get r).shape) w
  /-- The gradient does not fit the point. -/
  | gradient {g h : Ref} {w₁ w₂ : World S E} (hx : (w.store.get r).isVector = true)
      (hg : df (.matrix r) w = (.ok (.matrix g), w₁))
      (hh : ddf (.matrix r) w₁ = (.ok (.matrix h), w₂))
      (hshape : (w₂.store.get g).shape ≠ ((w₂.store.get r).rows, 1)) :
      Misfit (.answerShape .gradient (w₂.store.get g).shape ((w₂.store.get r).rows, 1)) w₂
  /-- The gradient does, and the Hessian does not. -/
  | hessian {g h : Ref} {w₁ w₂ : World S E} (hx : (w.store.get r).isVector = true)
      (hg : df (.matrix r) w = (.ok (.matrix g), w₁))
      (hh : ddf (.matrix r) w₁ = (.ok (.matrix h), w₂))
      (hfits : (w₂.store.get g).shape = ((w₂.store.get r).rows, 1))
      (hshape : (w₂.store.get h).shape ≠ ((w₂.store.get r).rows, (w₂.store.get r).rows)) :
      Misfit (.answerShape .hessian (w₂.store.get h).shape
        ((w₂.store.get r).rows, (w₂.store.get r).rows)) w₂

/-- An evaluator answers at a column with **no matrix**: the fault that says so, and the world in
which it is found. -/
inductive PlainAnswer : Fault → World S E → Prop
  /-- The gradient is plain; the Hessian is not asked for. -/
  | gradient {d : Datum} {w₁ : World S E} (hx : (w.store.get r).isVector = true)
      (hg : df (.matrix r) w = (.ok (.plain d), w₁)) :
      PlainAnswer (.answerKind .gradient d.kindName) w₁
  /-- The Hessian is plain. -/
  | hessian {g : Ref} {d : Datum} {w₁ w₂ : World S E} (hx : (w.store.get r).isVector = true)
      (hg : df (.matrix r) w = (.ok (.matrix g), w₁))
      (hh : ddf (.matrix r) w₁ = (.ok (.plain d), w₂)) :
      PlainAnswer (.answerKind .hessian d.kindName) w₂

end Contract

variable {df ddf : Evaluator S E} {r : Ref} {w w' : World S E} {cause : Fault}

/-- A wrong shape is a value out of its domain. -/
theorem Misfit.kind_eq [Scalar S] (h : Misfit df ddf r w cause w') : cause.kind = .value := by
  cases h <;> rfl

/-- A plain answer is a value of the wrong kind. -/
theorem PlainAnswer.kind_eq [Scalar S] (h : PlainAnswer df ddf r w cause w') :
    cause.kind = .type := by
  cases h <;> rfl

variable [SingularValues S]

/-- A step refuses wrong shapes. -/
theorem Misfit.step_eq (h : Misfit df ddf r w cause w') :
    step df ddf (.matrix r) w = (.error cause, w') := by
  cases h with
  | point hx => rw [step_matrix, if_neg (Bool.eq_false_iff.mp hx)]
  | gradient hx hg hh hshape => rw [step_of_answers hx hg hh, outcome_of_gradient_shape hshape]
  | hessian hx hg hh hfits hshape =>
    rw [step_of_answers hx hg hh, outcome_of_hessian_shape hfits hshape]

/-- A step refuses plain answers. -/
theorem PlainAnswer.step_eq (h : PlainAnswer df ddf r w cause w') :
    step df ddf (.matrix r) w = (.error cause, w') := by
  rw [step_matrix]
  cases h with
  | gradient hx hg => rw [if_pos hx, evaluate_of_plain hg]
  | hessian hx hg hh =>
    rw [if_pos hx, evaluate_eq_ok_iff.mpr hg]
    dsimp only
    rw [evaluate_of_plain hh]

/-- **A step that returns a status was well shaped.** -/
theorem wellShaped_of_step_eq_ok {status : Status}
    (hstep : step df ddf (.matrix r) w = (.ok status, w')) : WellShaped df ddf r w := by
  obtain ⟨r', g, h, o, w₁, w₂, hr, hx, hg, hh, ho, -, -⟩ := step_eq_ok hstep
  obtain rfl := Value.matrix.inj hr
  obtain ⟨hgshape, hhshape⟩ := shapes_of_outcome_eq_ok ho
  exact ⟨hx, g, h, w₁, w₂, hg, hh, hgshape, hhshape⟩

end Newton

/-! ## (2) The steps of a run -/

namespace Iteration

variable [SingularValues S] {df ddf : Evaluator S E} {limits : Limits S}
variable {callback : Option (Callback S E)} {r : Ref} {w w₁ w₂ : World S E} {p : Progress S}
  {cause : Fault}

/-- A run is refused where a step is. -/
theorem run_of_step_error {x : Value} (hacc : Accepted limits)
    (hp : Reached df ddf limits callback x w p w₁) (hgo : isOver limits p = false)
    (hstep : Newton.step df ddf x w₁ = (.error cause, w₂)) {fuel : Nat} (hfuel : p.steps < fuel) :
    run fuel df ddf limits callback x w = (.error cause, w₂) :=
  run_of_advance_error hacc hp hgo (Action.bind_of_error hstep) hfuel

/-- **All steps of an iteration are well shaped**, each where the iteration stood before it. -/
theorem Reached.wellShaped (hp : Reached df ddf limits callback (.matrix r) w p w₁) :
    ∀ k < p.steps, ∃ q w₂, Reached df ddf limits callback (.matrix r) w q w₂ ∧ q.steps = k ∧
      Newton.WellShaped df ddf r w₂ := by
  induction hp with
  | start _ => exact nofun
  | @advance p p' w₁ w₂ hp hgo hadv ih =>
    obtain ⟨r', status, w₃, w₄, norm, hr, hstep, -, -, rfl⟩ := advance_eq_ok_iff.mp hadv
    obtain rfl := Value.matrix.inj hr
    intro k hk
    -- the last step is the one that this advance took, all others came before it
    rcases Nat.lt_succ_iff_lt_or_eq.mp hk with hbefore | rfl
    · exact ih k hbefore
    · exact ⟨p, w₁, hp, rfl, Newton.wellShaped_of_step_eq_ok hstep⟩

/-! ## (3) The gradients that are compared -/

/-- An iteration from the world `w₀` **compares** the gradient that it is answered in the world `w`:
it asks for it after `steps` steps, the last of which ended in the status. -/
inductive Compares (df ddf : Evaluator S E) (limits : Limits S) (callback : Option (Callback S E))
    (x : Value) (w₀ : World S E) : Nat → Status → World S E → Prop
  /-- Before the first step. -/
  | first : Compares df ddf limits callback x w₀ 0 .success w₀
  /-- After a step, of which the callback has been told. -/
  | next {p : Progress S} {status : Status} {w w₁ w₂ : World S E}
      (hp : Reached df ddf limits callback x w₀ p w) (hgo : isOver limits p = false)
      (hstep : Newton.step df ddf x w = (.ok status, w₁))
      (htell : tell callback (p.steps + 1) x status w₁ = (.ok (), w₂)) :
      Compares df ddf limits callback x w₀ (p.steps + 1) status w₂

section Compares

variable {k : Nat} {status : Status} {norm : S}

/-- A gradient that is compared and has a norm is where the iteration stands next. -/
theorem Compares.exists_reached (h : Compares df ddf limits callback (.matrix r) w k status w₁)
    (hnorm : gradientNorm df (.matrix r) w₁ = (.ok norm, w₂)) :
    ∃ history, Reached df ddf limits callback (.matrix r) w ⟨k, status, norm, history⟩ w₂ := by
  cases h with
  | first => exact ⟨[], .start hnorm⟩
  | next hp hgo hstep htell =>
    exact ⟨_, hp.advance hgo (advance_eq_ok_iff.mpr ⟨r, _, _, _, _, rfl, hstep, htell, hnorm, rfl⟩)⟩

/-- Wherever an iteration stands, it has compared the gradient whose norm it has. -/
theorem Reached.exists_compares {x : Value} (hp : Reached df ddf limits callback x w p w₂) :
    ∃ w₁, Compares df ddf limits callback x w p.steps p.status w₁ ∧
      gradientNorm df x w₁ = (.ok p.gradientNorm, w₂) := by
  cases hp with
  | start hnorm => exact ⟨w, .first, hnorm⟩
  | advance hp hgo hadv =>
    obtain ⟨_, status, _, w₁, norm, -, hstep, htell, hnorm, rfl⟩ := advance_eq_ok_iff.mp hadv
    exact ⟨w₁, .next hp hgo hstep htell, hnorm⟩

/-- A run is refused where a gradient that it compares is. -/
theorem Compares.run_of_error (h : Compares df ddf limits callback (.matrix r) w k status w₁)
    (hacc : Accepted limits) (hnorm : gradientNorm df (.matrix r) w₁ = (.error cause, w₂))
    {fuel : Nat} (hfuel : k ≤ fuel) :
    run fuel df ddf limits callback (.matrix r) w = (.error cause, w₂) := by
  cases h with
  | first => rw [run_of_accepted hacc, Action.bind_of_error hnorm]
  | @next p status w' w₃ _ hp hgo hstep htell =>
    -- the step and the callback have returned, so the advance is refused for its gradient
    refine run_of_advance_error hacc hp hgo ?_ hfuel
    rw [advance_matrix, Action.bind_of_ok hstep,
      Action.bind_of_ok (show Action.read r w₃ = (.ok (w₃.store.get r), w₃) from rfl),
      Action.bind_of_ok htell, Action.bind_of_error hnorm]

/-- **When a run has converged** after some steps: the gradient that it compared then is a matrix
whose norm is within the tolerance. Neither its shape nor the point's is asked for. -/
theorem exists_converged_iff (hacc : Accepted limits) {fuel : Nat} (hfuel : k ≤ fuel) :
    (∃ result w', run fuel df ddf limits callback (.matrix r) w = (.ok (some result), w') ∧
        result.converged = true ∧ result.final.steps = k) ↔
      ∃ w₁ g w₂, Compares df ddf limits callback (.matrix r) w k .success w₁ ∧
        df (.matrix r) w₁ = (.ok (.matrix g), w₂) ∧
        withinTolerance (w₂.store.get g).norm limits.tolerance = true := by
  constructor
  · rintro ⟨result, w', hrun, hconverged, rfl⟩
    obtain ⟨-, q, w₂, hq, -, -, rfl, -⟩ := run_eq_some_iff.mp hrun
    obtain ⟨hsuccess, hwithin⟩ := hasConverged_iff.mp hconverged
    -- the norm that decides is that of the gradient compared last
    obtain ⟨w₁, hcompares, hnorm⟩ := hq.exists_compares
    obtain ⟨g, hg, hvalue⟩ := gradientNorm_eq_ok_iff.mp hnorm
    rw [hsuccess] at hcompares
    rw [hvalue] at hwithin
    exact ⟨w₁, g, w₂, hcompares, hg, hwithin⟩
  · rintro ⟨w₁, g, w₂, hcompares, hg, hwithin⟩
    obtain ⟨history, hreached⟩ := hcompares.exists_reached (gradientNorm_eq_ok_iff.mpr ⟨g, hg, rfl⟩)
    have hconverged : hasConverged limits ⟨k, .success, (w₂.store.get g).norm, history⟩ = true :=
      hasConverged_iff.mpr ⟨rfl, hwithin⟩
    exact ⟨_, _, run_of_hasConverged hacc hreached hconverged hfuel, hconverged, rfl⟩

end Compares

/-! ## (4) What a run refuses -/

/-- **What a run checks of its contract.** Every step of a run that returns was well shaped. A step
with a wrong shape refuses the run with a value fault, one with a plain answer refuses it with a
type fault. Of the gradients that are compared before the first step and after each step only plain
answers are refused, and not with a type fault but for the norm that they lack; the run has
converged exactly if such a gradient is a matrix with a norm within the tolerance, whatever its
shape and that of the point. -/
theorem run_contract (df ddf : Evaluator S E) (callback : Option (Callback S E)) (r : Ref)
    (w : World S E) (hacc : Accepted limits) :
    (∀ fuel result w', run fuel df ddf limits callback (.matrix r) w = (.ok (some result), w') →
      ∀ k < result.final.steps, ∃ p w₁, Reached df ddf limits callback (.matrix r) w p w₁ ∧
        p.steps = k ∧ Newton.WellShaped df ddf r w₁) ∧
    (∀ p w₁ cause w₂, Reached df ddf limits callback (.matrix r) w p w₁ → isOver limits p = false →
      Newton.Misfit df ddf r w₁ cause w₂ → cause.kind = .value ∧
        ∀ fuel > p.steps, run fuel df ddf limits callback (.matrix r) w = (.error cause, w₂)) ∧
    (∀ p w₁ cause w₂, Reached df ddf limits callback (.matrix r) w p w₁ → isOver limits p = false →
      Newton.PlainAnswer df ddf r w₁ cause w₂ → cause.kind = .type ∧
        ∀ fuel > p.steps, run fuel df ddf limits callback (.matrix r) w = (.error cause, w₂)) ∧
    (∀ k status w₁ d w₂, Compares df ddf limits callback (.matrix r) w k status w₁ →
      df (.matrix r) w₁ = (.ok (.plain d), w₂) →
        ∀ fuel ≥ k, run fuel df ddf limits callback (.matrix r) w = (.error .noSuchAttribute, w₂)) ∧
    ∀ k fuel, k ≤ fuel →
      ((∃ result w', run fuel df ddf limits callback (.matrix r) w = (.ok (some result), w') ∧
          result.converged = true ∧ result.final.steps = k) ↔
        ∃ w₁ g w₂, Compares df ddf limits callback (.matrix r) w k .success w₁ ∧
          df (.matrix r) w₁ = (.ok (.matrix g), w₂) ∧
          withinTolerance (w₂.store.get g).norm limits.tolerance = true) := by
  refine ⟨?_, ?_, ?_, ?_, ?_⟩
  · intro fuel result w' hrun
    obtain ⟨-, q, w₁, hq, -, -, rfl, -⟩ := run_eq_some_iff.mp hrun
    exact hq.wellShaped
  · intro p w₁ cause w₂ hp hgo hmisfit
    exact ⟨hmisfit.kind_eq, fun fuel hfuel => run_of_step_error hacc hp hgo hmisfit.step_eq hfuel⟩
  · intro p w₁ cause w₂ hp hgo hplain
    exact ⟨hplain.kind_eq, fun fuel hfuel => run_of_step_error hacc hp hgo hplain.step_eq hfuel⟩
  · intro k status w₁ d w₂ hcompares hdf fuel hfuel
    exact hcompares.run_of_error hacc (gradientNorm_of_plain hdf) hfuel
  · intro k fuel hfuel
    exact exists_converged_iff hacc hfuel

/-! ### A point that is no column -/

/-- The world that holds nothing but a row of two zeros. -/
def rowWorld : World Float Unit :=
  ⟨⟨#[.ofFn .double Nat.one_pos Nat.two_pos fun (_ : Fin 1) (_ : Fin 2) => Scalar.zero]⟩,
    .initial, .initial, ()⟩

/-- The iteration from a row whose gradient is the row itself has converged at once, although the
point is no column. -/
theorem converged_at_row :
    Accepted ⟨(0.5 : Float), none, false⟩ ∧ (rowWorld.store.get 0).isVector = false ∧
      ((run 0 pure pure ⟨0.5, none, false⟩ none (.matrix 0) rowWorld).1.toOption.join.map
        fun result => result.converged) = some true := by
  refine ⟨⟨?_, ?_⟩, ?_, ?_⟩ <;> decide +kernel

/-- A plain gradient refuses the run from a row, for the norm that it lacks. -/
theorem run_contract_of_plain_gradient :
    run 3 (fun _ => pure (.plain .null)) pure ⟨(0.5 : Float), none, false⟩ none (.matrix 0)
      rowWorld = (.error .noSuchAttribute, rowWorld) ∧ Fault.noSuchAttribute.kind ≠ .type := by
  have hacc : Accepted ⟨(0.5 : Float), none, false⟩ := ⟨by decide +kernel, rfl⟩
  obtain ⟨-, -, -, hrefused, -⟩ :=
    run_contract (fun _ => pure (.plain .null)) pure none 0 rowWorld hacc
  exact ⟨hrefused 0 .success rowWorld .null rowWorld .first rfl 3 (Nat.zero_le 3), by decide⟩

end Iteration

end NewtonRaphson
