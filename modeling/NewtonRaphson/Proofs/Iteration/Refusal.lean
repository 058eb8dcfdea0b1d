import NewtonRaphson.Proofs.Frame

/-! # What a refused iteration leaves

An iteration can be refused before its first step, within a step, or after one: by the callback, or
by the gradient that is evaluated anew. The steps that were completed by then are not taken back.

* **`Iteration.RefusedAfter … w n w₁ cause w'`** — an iteration from `w` is refused with `cause` in
  the world `w'`, after `n` completed steps of which the last left the world `w₁`.
* **`Iteration.refusedAfter_of_run`** — every refused iteration is refused in one of these ways.
* **`Iteration.RefusedAfter.rel`** — what is done after the last completed step stays in the frames
  of the caller's functions, so the point is left as that step left it. -/

namespace NewtonRaphson

namespace Iteration

variable {S E : Type} [SingularValues S]

/-- **How an iteration is refused**: the number of its completed steps, the world that the last of
them left, the fault, and the world after it. -/
inductive RefusedAfter (df ddf : Evaluator S E) (limits : Limits S)
    (callback : Option (Callback S E)) (x : Value) (w : World S E) :
    Nat → World S E → Fault → World S E → Prop
  /-- The limits are refused, and nothing is done. -/
  | limits {cause : Fault} (hacc : ¬ Accepted limits) :
      RefusedAfter df ddf limits callback x w 0 w cause w
  /-- The gradient at the start is refused. -/
  | start {cause : Fault} {w' : World S E} (hnorm : gradientNorm df x w = (.error cause, w')) :
      RefusedAfter df ddf limits callback x w 0 w cause w'
  /-- A step is refused, from where the iteration stood. -/
  | step {p : Progress S} {w₁ w' : World S E} {cause : Fault}
      (hp : Reached df ddf limits callback x w p w₁) (hgo : isOver limits p = false)
      (hstep : Newton.step df ddf x w₁ = (.error cause, w')) :
      RefusedAfter df ddf limits callback x w p.steps w₁ cause w'
  /-- A step is completed, and the callback is refused. -/
  | callback {p : Progress S} {w₁ w₂ w' : World S E} {status : Status} {cause : Fault}
      (hp : Reached df ddf limits callback x w p w₁) (hgo : isOver limits p = false)
      (hstep : Newton.step df ddf x w₁ = (.ok status, w₂))
      (htell : tell callback (p.steps + 1) x status w₂ = (.error cause, w')) :
      RefusedAfter df ddf limits callback x w (p.steps + 1) w₂ cause w'
  /-- A step is completed, and the gradient after it is refused. -/
  | gradient {p : Progress S} {w₁ w₂ w₃ w' : World S E} {status : Status} {cause : Fault}
      (hp : Reached df ddf limits callback x w p w₁) (hgo : isOver limits p = false)
      (hstep : Newton.step df ddf x w₁ = (.ok status, w₂))
      (htell : tell callback (p.steps + 1) x status w₂ = (.ok (), w₃))
      (hnorm : gradientNorm df x w₃ = (.error cause, w')) :
      RefusedAfter df ddf limits callback x w (p.steps + 1) w₂ cause w'

variable {df ddf : Evaluator S E} {limits : Limits S} {callback : Option (Callback S E)} {x : Value}
variable {w w₁ w' : World S E} {p : Progress S} {cause : Fault}

/-- An advance that is refused is refused within its step or after it. -/
theorem refusedAfter_of_advance (hp : Reached df ddf limits callback x w p w₁)
    (hgo : isOver limits p = false)
    (h : advance df ddf limits callback x p w₁ = (.error cause, w')) :
    ∃ n w₂, RefusedAfter df ddf limits callback x w n w₂ cause w' := by
  rcases hstep : Newton.step df ddf x w₁ with ⟨cause' | status, w₂⟩
  · rw [advance, Action.bind_of_error hstep] at h
    cases h
    exact ⟨_, _, .step hp hgo hstep⟩
  · obtain ⟨r, -, -, -, -, -, rfl, -⟩ := Newton.step_eq_ok hstep
    rw [advance_matrix, Action.bind_of_ok hstep,
      Action.bind_of_ok (show Action.read r w₂ = (.ok (w₂.store.get r), w₂) from rfl)] at h
    rcases htell : tell callback (p.steps + 1) (.matrix r) status w₂ with ⟨cause' | _, w₃⟩
    · rw [Action.bind_of_error htell] at h
      cases h
      exact ⟨_, _, .callback hp hgo hstep htell⟩
    · rw [Action.bind_of_ok htell] at h
      rcases hnorm : gradientNorm df (.matrix r) w₃ with ⟨cause' | norm, w₄⟩
      · rw [Action.bind_of_error hnorm] at h
        cases h
        exact ⟨_, _, .gradient hp hgo hstep htell hnorm⟩
      · rw [Action.bind_of_ok hnorm] at h
        cases h

/-- A loop that is refused is refused in an advance, by induction on the fuel. -/
theorem refusedAfter_of_loop (hp : Reached df ddf limits callback x w p w₁) {fuel : Nat}
    (h : loop df ddf limits callback x fuel p w₁ = (.error cause, w')) :
    ∃ n w₂, RefusedAfter df ddf limits callback x w n w₂ cause w' := by
  induction fuel generalizing p w₁ with
  | zero =>
    rw [loop] at h
    split at h <;> cases h
  | succ fuel ih =>
    by_cases hover : isOver limits p = true
    · rw [loop_of_isOver hover] at h
      cases h
    · have hgo : isOver limits p = false := Bool.eq_false_iff.mpr hover
      rw [loop_succ_of_not_isOver hgo] at h
      rcases hadv : advance df ddf limits callback x p w₁ with ⟨cause' | p', w₂⟩
      · rw [Action.bind_of_error hadv] at h
        cases h
        exact refusedAfter_of_advance hp hgo hadv
      · rw [Action.bind_of_ok hadv] at h
        exact ih (hp.advance hgo hadv) h

/-- **A refused iteration** is refused by its limits, at the first gradient, or in an advance from
where it stood. -/
theorem refusedAfter_of_run {fuel : Nat}
    (h : run fuel df ddf limits callback x w = (.error cause, w')) :
    ∃ n w₂, RefusedAfter df ddf limits callback x w n w₂ cause w' := by
  by_cases hacc : Accepted limits
  · rw [run_of_accepted hacc] at h
    rcases hnorm : gradientNorm df x w with ⟨cause' | norm, w₁⟩
    · rw [Action.bind_of_error hnorm] at h
      cases h
      exact ⟨_, _, .start hnorm⟩
    · rw [Action.bind_of_ok hnorm] at h
      rcases hloop : loop df ddf limits callback x fuel ⟨0, .success, norm, []⟩ w₁ with
        ⟨cause' | end?, w₂⟩
      · rw [Action.bind_of_error hloop] at h
        cases h
        exact refusedAfter_of_loop (.start hnorm) hloop
      · rw [Action.bind_of_ok hloop] at h
        cases end? <;> cases h
  · rw [run_of_not_accepted hacc] at h
    cases h
    exact ⟨_, _, .limits hacc⟩

/-- **What is done after the last completed step** stays in every frame in which the functions of
the caller stay, also in those that do not let the point move. -/
theorem RefusedAfter.rel {R : World S E → World S E → Prop} (hR : World.IsFrame R)
    (hdf : (df x).Stays R) (hddf : (ddf x).Stays R)
    (hcallback : ∀ report ∈ callback, ∀ n status, (report n x status).Stays R) {n : Nat}
    (h : RefusedAfter df ddf limits callback x w n w₁ cause w') : R w₁ w' := by
  cases h with
  | limits hacc => exact hR.refl w
  | start hnorm => exact (stays_gradientNorm hR hdf).of_eq hnorm
  | step hp hgo hstep => exact Newton.rel_of_step_eq_error hR hdf hddf hstep
  | callback hp hgo hstep htell => exact (stays_tell hR hcallback _ _).of_eq htell
  | gradient hp hgo hstep htell hnorm =>
    exact hR.trans ((stays_tell hR hcallback _ _).of_eq htell)
      ((stays_gradientNorm hR hdf).of_eq hnorm)

end Iteration

end NewtonRaphson
