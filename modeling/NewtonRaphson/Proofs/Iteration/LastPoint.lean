import NewtonRaphson.Proofs.Iteration.Course
import NewtonRaphson.Proofs.Iteration.Refusal
import NewtonRaphson.Proofs.Iteration.Resumption

/-! # The last good point

An iteration that is refused, wherever that happens, leaves the point where the steps that had
succeeded by then brought it: nothing of the step that was broken off is seen, and nothing of the
steps before it is taken back.

* **`DenseMatrix.SameForm`** — shape and precision, which the point keeps through every step.
* **`Iteration.BrokenOff`** — the ways in which an iteration ends after a stage with a fault, each
  with the point that is the last good one there.
* **`Iteration.run_error_keeps_last_point`** — a run that is refused followed a course of successful
  steps, was broken off after its last stage, and left the last good point. -/

namespace NewtonRaphson

variable {S E : Type}

/-- Two matrices have the **same form**: the same shape and the same precision. -/
def DenseMatrix.SameForm (a b : DenseMatrix S) : Prop :=
  a.shape = b.shape ∧ a.precision = b.precision

theorem DenseMatrix.SameForm.refl (a : DenseMatrix S) : a.SameForm a := ⟨rfl, rfl⟩

theorem DenseMatrix.SameForm.trans {a b c : DenseMatrix S} (h : a.SameForm b) (h' : b.SameForm c) :
    a.SameForm c := ⟨h.1.trans h'.1, h.2.trans h'.2⟩

/-- A value holds the same in another world if, in case it is a matrix, that is kept. -/
theorem World.held_eq_of_kept {x : Value} {w w' : World S E}
    (hx : ∀ r, x = .matrix r → ∃ m, w.held x = some m)
    (hkept : ∀ m, w.held x = some m → w'.held x = some m) : w'.held x = w.held x := by
  cases x with
  | plain d => rfl
  | matrix r =>
    obtain ⟨m, hm⟩ := hx r rfl
    exact (hkept m hm).trans hm.symm

section Steps

variable [SingularValues S] {df ddf : Evaluator S E} {x : Value} {w w' : World S E}
  {m m' : DenseMatrix S}

/-- A step that returns a status leaves a point of the old form. -/
theorem Newton.sameForm_of_step_eq_ok (hdf : (df x).Leaves x) (hddf : (ddf x).Leaves x)
    (hm : w.held x = some m) {status : Status} (hstep : step df ddf x w = (.ok status, w'))
    (hm' : w'.held x = some m') : m'.SameForm m := by
  by_cases hs : status = .success
  · obtain ⟨r, g, h, o, w₁, w₂, rfl, -, hg, hh, ho, hstatus, hw⟩ := step_eq_ok hstep
    have hold : w₂.store.get? r = some m := hddf.held_of_eq hh (hdf.held_of_eq hg hm)
    -- the new point is the sum of the old one and the solution
    obtain ⟨way, new, -, hnew, hsum, -⟩ := get?_step_success hold ho (hstatus.trans hs)
      (show (step df ddf (.matrix r) w).2 = _ by rw [hstep, hw])
    rw [hstep] at hnew
    obtain rfl := Option.some.inj (hnew.symm.trans hm')
    exact ⟨hsum.shape_eq, hsum.precision_eq⟩
  · obtain ⟨m₁, hm₁, hsame⟩ := held_of_step_eq_ok hdf hddf hm hstep
    obtain rfl := Option.some.inj (hm₁.symm.trans hm')
    rw [hsame hs]
    exact .refl m

end Steps

namespace Iteration

variable [SingularValues S] {df ddf : Evaluator S E} {limits : Limits S}
  {callback : Option (Callback S E)}
variable {x : Value} {w w' : World S E} {p : Progress S} {stage : Nat → Stage S E} {cause : Fault}

/-- Every stage of a course has a point of the form of the start. -/
theorem Course.exists_sameForm (hdf : (df x).Leaves x) (hddf : (ddf x).Leaves x)
    (h : Course df ddf limits callback x w p stage) {m : DenseMatrix S} (hm : w.held x = some m)
    {k : Nat} (hk : k ≤ p.steps) : ∃ m', (stage k).point = some m' ∧ m'.SameForm m := by
  induction k with
  | zero => exact ⟨m, h.starts.point.trans hm, .refl m⟩
  | succ k ih =>
    obtain ⟨m₁, hm₁, hform⟩ := ih (Nat.le_of_succ_le hk)
    obtain ⟨w₁, _, hstep, hpoint, -⟩ := (h.follows k hk).moves
    have hheld : (stage k).world.held x = some m₁ := (h.stands (Nat.le_of_succ_le hk)).trans hm₁
    obtain ⟨m₂, hm₂, -⟩ := Newton.held_of_step_eq_ok hdf hddf hheld hstep
    have hform' := Newton.sameForm_of_step_eq_ok hdf hddf hheld hstep hm₂
    exact ⟨m₂, hpoint.symm.trans hm₂, hform'.trans hform⟩

/-- All steps of a course that goes on succeeded. -/
theorem Course.status_eq_success (h : Course df ddf limits callback x w p stage)
    (hgo : isOver limits p = false) {k : Nat} (hk : k ≤ p.steps) : (stage k).status = .success := by
  rcases Nat.lt_or_eq_of_le hk with hlt | rfl
  · exact (h.follows k hlt).succeeded
  · exact h.status.symm.trans (isOver_eq_false_iff.mp hgo).1

/-- **How an iteration is broken off** after a stage, in the step with the number `k + 1` or behind
it, with the fault, the world after it, and the **last good point**: the new one if the step
succeeded, else that of the stage. -/
inductive BrokenOff (df ddf : Evaluator S E) (callback : Option (Callback S E)) (x : Value)
    (k : Nat) (s : Stage S E) (cause : Fault) (w' : World S E) :
    Option (DenseMatrix S) → Prop
  /-- The step is refused: by the point, by an evaluator, or by what an evaluator answered. -/
  | within (hstep : Newton.step df ddf x s.world = (.error cause, w')) :
      BrokenOff df ddf callback x k s cause w' s.point
  /-- The step fails with a status, and the callback or the gradient behind it is refused. -/
  | afterFailure {status : Status} {w₁ : World S E} (hs : status ≠ .success)
      (hstep : Newton.step df ddf x s.world = (.ok status, w₁))
      (hlater : (do tell callback (k + 1) x status; gradientNorm df x) w₁ = (.error cause, w')) :
      BrokenOff df ddf callback x k s cause w' s.point
  /-- The step succeeds, and the callback or the gradient behind it is refused. -/
  | afterSuccess {w₁ : World S E} (hstep : Newton.step df ddf x s.world = (.ok .success, w₁))
      (hlater : (do tell callback (k + 1) x .success; gradientNorm df x) w₁ = (.error cause, w')) :
      BrokenOff df ddf callback x k s cause w' (w₁.held x)

/-- What comes behind a completed step leaves the point where the step left it. -/
theorem exists_brokenOff_of_step {s : Stage S E} {k : Nat} {status : Status} {w₁ : World S E}
    (hdf : (df x).Leaves x) (hddf : (ddf x).Leaves x)
    (hcallback : ∀ report ∈ callback, ∀ steps status, (report steps x status).Leaves x)
    (hpoint : ∀ r, x = .matrix r → ∃ m, s.point = some m) (hstands : s.world.held x = s.point)
    (hstep : Newton.step df ddf x s.world = (.ok status, w₁))
    (hlater : (do tell callback (k + 1) x status; gradientNorm df x) w₁ = (.error cause, w')) :
    ∃ good, BrokenOff df ddf callback x k s cause w' good ∧ w'.held x = good := by
  obtain ⟨r, -, -, -, -, -, rfl, -⟩ := Newton.step_eq_ok hstep
  obtain ⟨m, hm⟩ := hpoint r rfl
  obtain ⟨m', hm', hsame⟩ := Newton.held_of_step_eq_ok hdf hddf (hstands.trans hm) hstep
  have hkeeps : w'.held (.matrix r) = some m' :=
    ((leaves_tell fun report hr => hcallback report hr _ _).bind fun _ =>
      leaves_gradientNorm hdf).held_of_eq hlater hm'
  by_cases hs : status = .success
  · subst hs
    exact ⟨_, .afterSuccess hstep hlater, hkeeps.trans hm'.symm⟩
  · rw [hsame hs] at hkeeps
    exact ⟨_, .afterFailure hs hstep hlater, hkeeps.trans hm.symm⟩

/-- The last good point has the form of the stage before. -/
theorem BrokenOff.exists_sameForm {s : Stage S E} {k : Nat} {good : Option (DenseMatrix S)}
    (h : BrokenOff df ddf callback x k s cause w' good) (hdf : (df x).Leaves x)
    (hddf : (ddf x).Leaves x) (hstands : s.world.held x = s.point) {m : DenseMatrix S}
    (hm : s.point = some m) : ∃ m', good = some m' ∧ m'.SameForm m := by
  cases h with
  | within hstep => exact ⟨m, hm, .refl m⟩
  | afterFailure hs hstep hlater => exact ⟨m, hm, .refl m⟩
  | afterSuccess hstep hlater =>
    obtain ⟨m', hm', -⟩ := Newton.held_of_step_eq_ok hdf hddf (hstands.trans hm) hstep
    exact ⟨m', hm', Newton.sameForm_of_step_eq_ok hdf hddf (hstands.trans hm) hstep hm'⟩

/-- A run that is refused behind its first gradient followed a course of successful steps and was
broken off after its last stage. -/
theorem exists_brokenOff_of_refusedAfter (hdf : (df x).Leaves x) (hddf : (ddf x).Leaves x)
    (hcallback : ∀ report ∈ callback, ∀ steps status, (report steps x status).Leaves x)
    (hx : ∀ r, x = .matrix r → r < w.store.size) {n : Nat} {w₁ : World S E}
    (h : RefusedAfter df ddf limits callback x w n w₁ cause w') (hacc : Accepted limits)
    (hstart : gradientNorm df x w ≠ (.error cause, w')) :
    ∃ p stage good, Course df ddf limits callback x w p stage ∧
      (∀ k ≤ p.steps, (stage k).status = .success) ∧
      BrokenOff df ddf callback x p.steps (stage p.steps) cause w' good ∧ w'.held x = good := by
  cases h with
  | limits hnot => exact absurd hacc hnot
  | start hnorm => exact absurd hnorm hstart
  | @step p _ _ _ hp hgo hstep =>
    obtain ⟨stage, hcourse, rfl, hpoint, -⟩ := hp.exists_course hdf hddf hcallback hx
    have hstands := hcourse.stands (Nat.le_refl _)
    refine ⟨p, stage, _, hcourse, fun k => hcourse.status_eq_success hgo, .within hstep, ?_⟩
    -- a step that is refused is none that succeeds
    have hkept : ∀ m, (stage p.steps).world.held x = some m → w'.held x = some m := by
      intro m hm
      have hm' := Newton.held_step_of_ne_success hdf hddf hm (by rw [hstep]; exact nofun)
      rwa [hstep] at hm'
    exact (World.held_eq_of_kept (fun r hr => hstands ▸ hpoint r hr) hkept).trans hstands
  | @callback p _ w₂ _ status _ hp hgo hstep htell =>
    obtain ⟨stage, hcourse, rfl, hpoint, -⟩ := hp.exists_course hdf hddf hcallback hx
    obtain ⟨good, hbroken, hgood⟩ := exists_brokenOff_of_step hdf hddf hcallback hpoint
      (hcourse.stands (Nat.le_refl _)) hstep (Action.bind_of_error htell)
    exact ⟨p, stage, good, hcourse, fun k => hcourse.status_eq_success hgo, hbroken, hgood⟩
  | @gradient p _ w₂ w₃ _ status _ hp hgo hstep htell hnorm =>
    obtain ⟨stage, hcourse, rfl, hpoint, -⟩ := hp.exists_course hdf hddf hcallback hx
    obtain ⟨good, hbroken, hgood⟩ := exists_brokenOff_of_step hdf hddf hcallback hpoint
      (hcourse.stands (Nat.le_refl _)) hstep ((Action.bind_of_ok htell).trans hnorm)
    exact ⟨p, stage, good, hcourse, fun k => hcourse.status_eq_success hgo, hbroken, hgood⟩

/-- **A refused run leaves the last good point.** Let evaluators and callback leave the point alone.

If the tolerance or the bound is refused, then nothing is done, and, as seen under watch, nothing of
the caller is called. If they are accepted and the run is refused, then either the gradient was
refused at the start, and the point is as it was; or the run followed a course of steps that all
succeeded, was broken off after its last stage, and left the point that is the last good one there.
In any case a matrix that was the point has kept its shape and its precision. -/
theorem run_error_keeps_last_point (hdf : (df x).Leaves x) (hddf : (ddf x).Leaves x)
    (hcallback : ∀ report ∈ callback, ∀ steps status, (report steps x status).Leaves x)
    (hx : ∀ r, x = .matrix r → r < w.store.size) (fuel : Nat) :
    (¬ Accepted limits → ∃ cause, (cause = .toleranceSign ∨ cause = .stepBoundSign) ∧
      run fuel df ddf limits callback x w = (.error cause, w) ∧
      run fuel (df.watched .gradient) (ddf.watched .hessian) limits (callback.map Callback.watched)
        x (w.watched []) = (.error cause, w.watched [])) ∧
    ∀ cause w', run fuel df ddf limits callback x w = (.error cause, w') →
      (Accepted limits →
        (gradientNorm df x w = (.error cause, w') ∧ w'.held x = w.held x) ∨
        ∃ p stage good, Course df ddf limits callback x w p stage ∧
          (∀ k ≤ p.steps, (stage k).status = .success) ∧
          BrokenOff df ddf callback x p.steps (stage p.steps) cause w' good ∧ w'.held x = good) ∧
      ∀ m, w.held x = some m → ∃ m', w'.held x = some m' ∧ m'.SameForm m := by
  constructor
  · intro hnot
    refine ⟨_, ?_, run_of_not_accepted hnot fuel w, run_of_not_accepted hnot fuel _⟩
    split
    · exact .inl rfl
    · exact .inr rfl
  · intro cause w' hrun
    obtain ⟨n, w₁, hrefused⟩ := refusedAfter_of_run hrun
    by_cases hstart : gradientNorm df x w = (.error cause, w')
    · have hkept : ∀ m, w.held x = some m → w'.held x = some m :=
        fun m hm => (leaves_gradientNorm hdf).held_of_eq hstart hm
      have hmatrix : ∀ r, x = .matrix r → ∃ m, w.held x = some m := by
        rintro r rfl
        exact ⟨_, Store.get?_of_lt (hx r rfl)⟩
      exact ⟨fun _ => .inl ⟨hstart, World.held_eq_of_kept hmatrix hkept⟩,
        fun m hm => ⟨m, hkept m hm, .refl m⟩⟩
    · by_cases hacc : Accepted limits
      · obtain ⟨p, stage, good, hcourse, hsuccess, hbroken, hgood⟩ :=
          exists_brokenOff_of_refusedAfter hdf hddf hcallback hx hrefused hacc hstart
        refine ⟨fun _ => .inr ⟨p, stage, good, hcourse, hsuccess, hbroken, hgood⟩, fun m hm => ?_⟩
        obtain ⟨m₁, hm₁, hform₁⟩ := hcourse.exists_sameForm hdf hddf hm (Nat.le_refl _)
        obtain ⟨m₂, hm₂, hform₂⟩ :=
          hbroken.exists_sameForm hdf hddf (hcourse.stands (Nat.le_refl _)) hm₁
        exact ⟨m₂, hgood.trans hm₂, hform₂.trans hform₁⟩
      · rw [run_of_not_accepted hacc] at hrun
        obtain ⟨-, rfl⟩ := Prod.mk.inj hrun
        exact ⟨fun h => absurd h hacc, fun m hm => ⟨m, hm, .refl m⟩⟩

/-! ### A callback that gives up -/

/-- The callback that gives up when it is told of the second step. -/
def abandoning : Callback Float Unit :=
  fun steps _ _ => if steps = 2 then Action.fail .abandoned else pure ()

/-- Steps that go half of the way from one, until the callback gives up. -/
def abandonedRun : Except Fault (Option (Run Float)) × World Float Unit :=
  run 4 pointGradient doubledHessian ⟨0.2, none, true⟩ (some abandoning) (.matrix 0) unitWorld

/-- The callback gives up after two steps that succeeded, and the point is left at a quarter. -/
theorem run_error_keeps_last_point_of_abandoning :
    ∃ cause p stage good, abandonedRun.1 = .error cause ∧
      Course pointGradient doubledHessian ⟨0.2, none, true⟩ (some abandoning) (.matrix 0) unitWorld
        p stage ∧
      BrokenOff pointGradient doubledHessian (some abandoning) (.matrix 0) p.steps (stage p.steps)
        cause abandonedRun.2 good ∧
      abandonedRun.2.held (.matrix 0) = good ∧
      good.map (fun m => Scalar.eq m.norm 0.25) = some true := by
  have hrefused : abandonedRun.1.toOption.isNone = true := by decide +kernel
  have hquarter : (abandonedRun.2.held (.matrix 0)).map (fun m => Scalar.eq m.norm 0.25) =
      some true := by
    decide +kernel
  have hgradient : (gradientNorm pointGradient (.matrix 0) unitWorld).1.toOption.isSome = true := by
    decide +kernel
  have hcallback : ∀ report ∈ some abandoning, ∀ n status,
      (report n (.matrix 0) status).Leaves (.matrix 0) := by
    rintro report ⟨rfl⟩ n status
    unfold abandoning
    split
    · exact Action.leaves_fail _ _
    · exact Action.leaves_pure _ _
  rcases hrun : abandonedRun with ⟨cause | result, w'⟩
  · rw [hrun] at hquarter
    obtain ⟨hbroken, -⟩ := (run_error_keeps_last_point (computes_pointGradient.leaves _ _)
      (computes_doubledHessian.leaves _ _) hcallback
      (fun r hr => Value.matrix.inj hr ▸ Nat.one_pos) 4).2
      cause w' hrun
    rcases hbroken ⟨by decide +kernel, rfl⟩ with
      ⟨hstart, -⟩ | ⟨p, stage, good, hcourse, -, hbroken, rfl⟩
    · rw [hstart] at hgradient
      cases hgradient
    · exact ⟨cause, p, stage, _, rfl, hcourse, hbroken, rfl, hquarter⟩
  · rw [hrun] at hrefused
    cases hrefused

end Iteration

end NewtonRaphson
