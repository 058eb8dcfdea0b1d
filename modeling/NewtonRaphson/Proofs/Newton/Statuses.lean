import NewtonRaphson.Proofs.LinearSystem
import NewtonRaphson.Proofs.Newton
import NewtonRaphson.SingularValues.Jacobi

/-! # What the statuses of a step mean

At a column vector, with a gradient and a Hessian that are finite, fit it and have its precision, a
step always returns a status. Which one it is depends on three things in this order: the rank check
of the Hessian, what elimination finds, and the sum of point and solution.

* **`Eliminates a b y`** — elimination takes the system of `a` and `b` to `y`, finite or not.
* **`solve_eq_ok_iff`** — a solution is one that the rank check, elimination and the check for
  finiteness let pass.
* **`Newton.outcome_cases`** — the outcome of a step whose derivatives fit.
* **`Newton.step_status`** — a singular Hessian is reported exactly if the rank check fails *or*
  elimination has no finite solution; otherwise the new point decides.
* **`Newton.singular_of_full_rank`** — the rank check alone does not decide: a Hessian that passes
  it is reported as singular where the solution overflows. -/

namespace NewtonRaphson

variable {S E : Type}

/-! ## (1) What elimination finds -/

section Solving

/-- **Elimination takes a system to a matrix**: the system of `a` and `b` is square, no pivot is
zero, and the unknowns are the entries of `y`, which need not be finite. -/
def Eliminates [Scalar S] (a b y : DenseMatrix S) : Prop :=
  ∃ (hsquare : a.cols = a.rows) (hrows : b.rows = a.rows) (x : Grid S a.rows b.cols),
    Elimination.solve? a.precision (a.grid.castCols hsquare) (b.grid.castRows hrows) = some x ∧
      y = ⟨a.precision, a.rows, b.cols, a.rows_pos, b.cols_pos, x⟩

variable [SingularValues S] {threshold : Threshold S} {a b : DenseMatrix S}

/-- **When a solution is returned**: the precisions agree, the rank check accepts the matrix, and
elimination takes the system to that solution, which is finite. -/
theorem solve_eq_ok_iff {y : DenseMatrix S} :
    solve threshold a b = .ok y ↔
      a.precision = b.precision ∧ a.isSingular threshold = .ok false ∧ Eliminates a b y ∧
        y.isFinite = true := by
  constructor
  · intro h
    obtain ⟨hsquare, hrows, hprecision, haccepted⟩ := accepted_of_solve_eq_ok h
    rw [solve_of_fits hsquare hrows hprecision, haccepted] at h
    dsimp only at h
    rcases hx : Elimination.solve? a.precision (a.grid.castCols hsquare) (b.grid.castRows hrows)
      with _ | x
    · rw [hx] at h
      cases h
    · rw [hx] at h
      dsimp only at h
      split at h
      · next hfinite =>
        obtain rfl := Except.ok.inj h
        exact ⟨hprecision, haccepted, ⟨hsquare, hrows, x, hx, rfl⟩, hfinite⟩
      · cases h
  · rintro ⟨hprecision, haccepted, ⟨hsquare, hrows, x, hx, rfl⟩, hfinite⟩
    rw [solve_of_fits hsquare hrows hprecision, haccepted]
    dsimp only
    rw [hx]
    dsimp only
    rw [if_pos hfinite]

/-- A system that fits and has no finite solution is refused as singular even where the rank check
accepts its matrix, for a zero pivot or for the infinite solution. -/
theorem solve_of_no_finite (hsquare : a.cols = a.rows) (hrows : b.rows = a.rows)
    (hprecision : a.precision = b.precision) (haccepted : a.isSingular threshold = .ok false)
    (hnone : ¬ ∃ y, Eliminates a b y ∧ y.isFinite = true) :
    ∃ cause, (cause = .zeroPivot ∨ cause = .infiniteSolution) ∧
      solve threshold a b = .error cause := by
  rw [solve_of_fits hsquare hrows hprecision, haccepted]
  dsimp only
  rcases hx : Elimination.solve? a.precision (a.grid.castCols hsquare) (b.grid.castRows hrows)
    with _ | x
  · exact ⟨.zeroPivot, .inl rfl, rfl⟩
  · dsimp only
    split
    · next hfinite => exact absurd ⟨_, ⟨hsquare, hrows, x, hx, rfl⟩, hfinite⟩ hnone
    · exact ⟨.infiniteSolution, .inr rfl, rfl⟩

/-- The sum of two matrices of one precision and shape exists. -/
theorem DenseMatrix.exists_add {c d : DenseMatrix S} (hprecision : c.precision = d.precision)
    (hshape : c.shape = d.shape) : ∃ e, c.add d = .ok e := by
  obtain ⟨hrows, hcols⟩ := Prod.mk.inj hshape
  rw [add, combine, if_pos hprecision, dif_pos ⟨hrows, hcols⟩]
  exact ⟨_, rfl⟩

end Solving

namespace Newton

variable [SingularValues S]

/-! ## (2) The outcome with derivatives that fit -/

/-- Gradient and Hessian **fit** a point: they have the sizes and the precision it demands and are
finite, and the point is a column vector. -/
structure Fits (x g h : DenseMatrix S) : Prop where
  /-- The point is a column vector. -/
  vector : x.isVector = true
  /-- The gradient is a column as long as the point. -/
  gradient_shape : g.shape = (x.rows, 1)
  /-- The Hessian is square, with a row for each entry of the point. -/
  hessian_shape : h.shape = (x.rows, x.rows)
  /-- The gradient has the precision of the point. -/
  gradient_precision : g.precision = x.precision
  /-- The Hessian has the precision of the point. -/
  hessian_precision : h.precision = x.precision
  /-- The gradient is finite. -/
  gradient_finite : g.isFinite = true
  /-- The Hessian is finite. -/
  hessian_finite : h.isFinite = true

section Outcome

variable {x g h : DenseMatrix S}

/-- The Newton system of derivatives that fit is square, its right-hand side fits, and its
precisions agree. -/
theorem Fits.system (hfit : Fits x g h) :
    h.cols = h.rows ∧ g.neg.rows = h.rows ∧ h.precision = g.neg.precision := by
  obtain ⟨hhr, hhc⟩ := Prod.mk.inj hfit.hessian_shape
  obtain ⟨hgr, -⟩ := Prod.mk.inj hfit.gradient_shape
  exact ⟨hhc.trans hhr.symm, hgr.trans hhr.symm,
    hfit.hessian_precision.trans hfit.gradient_precision.symm⟩

/-- What elimination finds for the Newton system can be added to the point. -/
theorem Fits.exists_add (hfit : Fits x g h) {way : DenseMatrix S} (hway : Eliminates h g.neg way) :
    ∃ point, x.add way = .ok point := by
  obtain ⟨-, -, y, -, rfl⟩ := hway
  obtain ⟨hhr, -⟩ := Prod.mk.inj hfit.hessian_shape
  obtain ⟨-, hgc⟩ := Prod.mk.inj hfit.gradient_shape
  have hxc : x.cols = 1 := of_decide_eq_true hfit.vector
  refine DenseMatrix.exists_add hfit.hessian_precision.symm ?_
  exact Prod.ext hhr.symm (hxc.trans hgc.symm)

/-- **The outcome of a step whose derivatives fit.** It is singular if the rank check fails, and
also if the check accepts the Hessian but elimination has no finite solution; otherwise the sum of
point and solution decides whether the step moves. -/
theorem outcome_cases (factor : S) (hfit : Fits x g h) :
    (h.isSingular (.standard factor) = .ok true ∧
      outcome factor x g h = .ok (.singular (.rankDeficient h.shape))) ∨
    (h.isSingular (.standard factor) = .ok false ∧
      (¬ ∃ way, Eliminates h g.neg way ∧ way.isFinite = true) ∧
      ∃ cause, (cause = .zeroPivot ∨ cause = .infiniteSolution) ∧
        outcome factor x g h = .ok (.singular cause)) ∨
    (h.isSingular (.standard factor) = .ok false ∧
      ∃ way point, Eliminates h g.neg way ∧ way.isFinite = true ∧ x.add way = .ok point ∧
        outcome factor x g h = .ok (if point.isFinite then .moved point way else .overflow)) := by
  obtain ⟨hsquare, hrows, hprecision⟩ := hfit.system
  have hfinite : (g.isFinite && h.isFinite) = true := by
    rw [hfit.gradient_finite, hfit.hessian_finite]
    rfl
  rw [outcome_of_finite hfit.gradient_shape hfit.hessian_shape hfinite]
  obtain ⟨deficient, hcheck⟩ := DenseMatrix.exists_isSingular (.standard factor) hsquare rfl
  cases deficient with
  | true =>
    -- the rank check is the first of the three causes that solving gives
    left
    rw [solve_of_fits hsquare hrows hprecision, hcheck]
    exact ⟨rfl, rfl⟩
  | false =>
    right
    by_cases hway : ∃ way, Eliminates h g.neg way ∧ way.isFinite = true
    · right
      obtain ⟨way, hway, hwayFinite⟩ := hway
      obtain ⟨point, hpoint⟩ := hfit.exists_add hway
      have hsolve : solve (.standard factor) h g.neg = .ok way :=
        solve_eq_ok_iff.mpr ⟨hprecision, hcheck, hway, hwayFinite⟩
      rw [hsolve]
      dsimp only
      rw [hpoint]
      exact ⟨hcheck, way, point, hway, hwayFinite, hpoint, rfl⟩
    · left
      obtain ⟨cause, hcause, hsolve⟩ := solve_of_no_finite hsquare hrows hprecision hcheck hway
      refine ⟨hcheck, hway, cause, hcause, ?_⟩
      rw [hsolve]
      rcases hcause with rfl | rfl
      · rfl
      · rfl

end Outcome

/-! ## (3) The status -/

/-- **What the statuses mean.** On a column vector, with evaluators that answer with a gradient and
a Hessian that fit it, a step always returns a status, and the rank check always gives a verdict.
The Hessian is reported as singular exactly if the rank check fails or elimination has no finite
solution; the record names the rank as the cause exactly if the check fails. Otherwise there is a
finite solution, and the sum of point and solution decides: a numerical error if it is not finite, a
success if it is. -/
theorem step_status (df ddf : Evaluator S E) {r a b : Ref} {w w₁ w₂ : World S E}
    {x g h : DenseMatrix S} (hvector : (w.store.get r).isVector = true)
    (hdf : df (.matrix r) w = (.ok (.matrix a), w₁))
    (hddf : ddf (.matrix r) w₁ = (.ok (.matrix b), w₂)) (hx : w₂.store.get? r = some x)
    (hg : w₂.store.get? a = some g) (hh : w₂.store.get? b = some h) (hfit : Fits x g h) :
    ∃ deficient status, h.isSingular (.standard w₂.settings.factor) = .ok deficient ∧
      (step df ddf (.matrix r) w).1 = .ok status ∧
      (status = .singularHessian ↔
        deficient = true ∨ ¬ ∃ way, Eliminates h g.neg way ∧ way.isFinite = true) ∧
      (status = .singularHessian →
        ∃ cause, (step df ddf (.matrix r) w).2.journal =
            w₂.journal.emit ⟨Journal.stepLogger, Level.warning, .singularHessian cause⟩ ∧
          (cause = .rankDeficient h.shape ↔ deficient = true)) ∧
      (status ≠ .singularHessian →
        ∃ way point, Eliminates h g.neg way ∧ way.isFinite = true ∧ x.add way = .ok point ∧
          (status = .numericalError ↔ point.isFinite = false) ∧
          (status = .success ↔ point.isFinite = true)) := by
  have hstep := step_of_answers hvector hdf hddf
  rw [Store.get_of_get? hx, Store.get_of_get? hg, Store.get_of_get? hh] at hstep
  rcases outcome_cases w₂.settings.factor hfit with
    ⟨hcheck, ho⟩ | ⟨hcheck, hnone, cause, hcause, ho⟩ |
      ⟨hcheck, way, point, hway, hfinite, hpoint, ho⟩
  · rw [ho] at hstep
    refine ⟨true, .singularHessian, hcheck, by rw [hstep]; rfl, ?_, ?_, fun hne => absurd rfl hne⟩
    · exact iff_of_true rfl (.inl rfl)
    · exact fun _ => ⟨.rankDeficient h.shape, by rw [hstep]; rfl, iff_of_true rfl rfl⟩
  · rw [ho] at hstep
    refine ⟨false, .singularHessian, hcheck, by rw [hstep]; rfl, ?_, ?_, fun hne => absurd rfl hne⟩
    · exact iff_of_true rfl (.inr hnone)
    · refine fun _ => ⟨cause, by rw [hstep]; rfl, iff_of_false ?_ Bool.false_ne_true⟩
      rcases hcause with rfl | rfl
      · exact nofun
      · exact nofun
  · -- a finite solution: the rest depends on the new point alone
    rw [ho] at hstep
    cases hsum : point.isFinite with
    | true =>
      rw [hsum, if_pos rfl] at hstep
      refine ⟨false, .success, hcheck, by rw [hstep]; rfl, ?_, nofun, fun _ => ?_⟩
      · exact iff_of_false nofun
          (not_or.mpr ⟨Bool.false_ne_true, not_not_intro ⟨way, hway, hfinite⟩⟩)
      · exact ⟨way, point, hway, hfinite, hpoint, by rw [hsum]; exact iff_of_false nofun nofun,
          iff_of_true rfl hsum⟩
    | false =>
      rw [hsum, if_neg Bool.false_ne_true] at hstep
      refine ⟨false, .numericalError, hcheck, by rw [hstep]; rfl, ?_, nofun, fun _ => ?_⟩
      · exact iff_of_false nofun
          (not_or.mpr ⟨Bool.false_ne_true, not_not_intro ⟨way, hway, hfinite⟩⟩)
      · exact ⟨way, point, hway, hfinite, hpoint, iff_of_true rfl hsum,
          by rw [hsum]; exact iff_of_false nofun nofun⟩

/-! ### A solution that overflows -/

/-- A matrix of one double. -/
def oneDouble (x : Float) : DenseMatrix Float :=
  .ofFn .double Nat.one_pos Nat.one_pos fun (_ _ : Fin 1) => x

/-- The point zero, a gradient near the largest double, and a small Hessian: the solution of the
system is beyond the range of doubles. -/
def steepWorld : World Float Unit :=
  ⟨⟨#[oneDouble 0.0, oneDouble 1e308, oneDouble 1e-10]⟩, .initial, .initial, ()⟩

/-- Finite derivatives in one unknown fit every point. -/
theorem fits_oneDouble (x : Float) {g h : Float} (hg : (oneDouble g).isFinite = true)
    (hh : (oneDouble h).isFinite = true) : Fits (oneDouble x) (oneDouble g) (oneDouble h) :=
  ⟨rfl, rfl, rfl, rfl, rfl, hg, hh⟩

/-- Gradient and Hessian of the steep world fit its point. -/
theorem fits_steepWorld : Fits (oneDouble 0.0) (oneDouble 1e308) (oneDouble 1e-10) :=
  fits_oneDouble _ (by decide +kernel) (by decide +kernel)

/-- In the steep world the rank check passes and the Hessian is reported as singular: there is no
finite solution, and the record does not name the rank as the cause. -/
theorem step_status_of_steepWorld :
    (step (fun _ => pure (.matrix 1)) (fun _ => pure (.matrix 2)) (.matrix 0) steepWorld).1 =
        .ok .singularHessian ∧
      (¬ ∃ way, Eliminates (oneDouble 1e-10) (oneDouble 1e308).neg way ∧ way.isFinite = true) ∧
      ∃ cause, cause ≠ .rankDeficient (1, 1) ∧
        (step (fun _ => pure (.matrix 1)) (fun _ => pure (.matrix 2)) (.matrix 0)
          steepWorld).2.journal =
          steepWorld.journal.emit ⟨Journal.stepLogger, Level.warning, .singularHessian cause⟩ := by
  have hsingular : (step (fun _ => pure (.matrix 1)) (fun _ => pure (.matrix 2)) (.matrix 0)
      steepWorld).1 = .ok .singularHessian := Action.eq_ok_of_toOption (by decide +kernel)
  have hpasses : (oneDouble 1e-10).isSingular (.standard steepWorld.settings.factor) = .ok false :=
    Action.eq_ok_of_toOption (by decide +kernel)
  obtain ⟨deficient, status, hcheck, hstatus, hsingular_iff, hrecord, -⟩ :=
    step_status (fun _ => pure (.matrix 1)) (fun _ => pure (.matrix 2)) (r := 0) (w := steepWorld)
      rfl rfl rfl rfl rfl rfl fits_steepWorld
  obtain rfl : deficient = false := Except.ok.inj (hcheck.symm.trans hpasses)
  obtain rfl : status = .singularHessian := Except.ok.inj (hstatus.symm.trans hsingular)
  obtain ⟨cause, hjournal, hcause⟩ := hrecord rfl
  refine ⟨hsingular, (hsingular_iff.mp rfl).resolve_left Bool.false_ne_true, cause, ?_, hjournal⟩
  exact fun h => Bool.false_ne_true (hcause.mp h)

/-- **The rank check alone does not decide.** At a finite point, with a finite gradient and a finite
Hessian that passes the rank check, the status is not that of the new point, but that of a singular
Hessian. -/
theorem singular_of_full_rank :
    Fits (steepWorld.store.get 0) (steepWorld.store.get 1) (steepWorld.store.get 2) ∧
      (steepWorld.store.get 2).isSingular (.standard steepWorld.settings.factor) = .ok false ∧
      (step (fun _ => pure (.matrix 1)) (fun _ => pure (.matrix 2)) (.matrix 0) steepWorld).1 =
        .ok .singularHessian :=
  ⟨fits_steepWorld, Action.eq_ok_of_toOption (by decide +kernel),
    Action.eq_ok_of_toOption (by decide +kernel)⟩

end Newton

end NewtonRaphson
