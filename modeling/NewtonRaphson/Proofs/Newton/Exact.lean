import NewtonRaphson.Proofs.DenseMatrix.Exact
import NewtonRaphson.Proofs.Evaluator

/-! # Newton's law in exact arithmetic

Over exact scalars a step that succeeds solves its Newton system exactly, and a gradient that is
linear in the point is brought to zero by a single step.

* **`Newton.outcome_moved_exact`** — the way of a move is the difference of the points, it solves
  the system, and it is zero exactly if the gradient is.
* **`Newton.WellPosed`** — a system whose matrix the standard rank check accepts, and a start that
  fits.
* **`Newton.WellPosed.exists_step`** — with its residual for the gradient, a step from any start
  succeeds and leaves the point at the only solution. -/

namespace NewtonRaphson

namespace Newton

variable {K E : Type} [Field K] [LinearOrder K] [SingularValues K] [ExactScalar K]

/-! ## (1) The law of a move -/

/-- **Newton's law**: a move leads along the solution of the Newton system, and it stays where it is
exactly if the gradient is zero. -/
theorem outcome_moved_exact {factor : K} {x g h point way : DenseMatrix K}
    (ho : outcome factor x g h = .ok (.moved point way)) :
    point.sub x = .ok way ∧ h.mul way = .ok g.neg ∧ (point = x ↔ g.IsZero) := by
  obtain ⟨-, -, -, -, hsolve, hadd, -⟩ := outcome_eq_moved_iff.mp ho
  refine ⟨DenseMatrix.sub_of_add hadd, (mul_eq_ok_iff_of_solve hsolve way).mpr rfl, ?_⟩
  rw [DenseMatrix.eq_left_iff_of_add hadd, DenseMatrix.isZero_iff_of_solve hsolve,
    DenseMatrix.isZero_neg_iff]

/-- A step with pure evaluators that succeeds obeys Newton's law at the values of their
functions. -/
theorem exists_law_of_step {df ddf : Evaluator K E}
    {G H : DenseMatrix K → Except Fault (DenseMatrix K)} (hdf : df.Computes G)
    (hddf : ddf.Computes H) {r : Ref} {w : World K E} {x : DenseMatrix K}
    (hx : w.store.get? r = some x) (hs : (step df ddf (.matrix r) w).1 = .ok .success) :
    ∃ g h point way, G x = .ok g ∧ H x = .ok h ∧
      (step df ddf (.matrix r) w).2.store.get? r = some point ∧ point.sub x = .ok way ∧
      h.mul way = .ok g.neg ∧ (point = x ↔ g.IsZero) := by
  have hstep : step df ddf (.matrix r) w = (.ok .success, (step df ddf (.matrix r) w).2) :=
    Prod.ext hs rfl
  obtain ⟨g, h, hvector, hg, hh⟩ := exists_values_of_step_eq_ok hdf hddf hx hstep
  obtain ⟨w₂, hx₂, -, hcarried⟩ := step_of_computes hdf hddf hx hvector hg hh
  rcases ho : outcome w.settings.factor x g h with cause | o
  · rw [hcarried, ho] at hs
    cases hs
  · rw [hcarried, ho] at hs
    obtain ⟨point, way, rfl⟩ := StepOutcome.status_eq_success_iff.mp (Except.ok.inj hs)
    obtain ⟨hsub, hmul, hzero⟩ := outcome_moved_exact ho
    have hpoint : ((StepOutcome.moved point way).settle r w₂.store).get? r = some point :=
      StepOutcome.get?_settle_moved (Store.lt_size_of_get? hx₂)
    refine ⟨g, h, point, way, hg, hh, ?_, hsub, hmul, hzero⟩
    rw [hcarried, ho]
    exact hpoint

/-! ## (2) Linear gradients -/

/-- A linear system is **well posed** at a start: right-hand side and start are columns that fit the
matrix, whose singular values are faithful and which the standard rank check accepts. -/
structure WellPosed (factor : K) (a b x : DenseMatrix K) : Prop where
  /-- The right-hand side is a column with a row for each row of the matrix. -/
  side : b.shape = (a.rows, 1)
  /-- So is the start. -/
  start : x.shape = (a.rows, 1)
  /-- The right-hand side has the precision of the matrix. -/
  side_precision : a.precision = b.precision
  /-- So has the start. -/
  start_precision : a.precision = x.precision
  /-- The singular values of the matrix are what they should be. -/
  faithful : a.FaithfulSingularValues
  /-- The singularity factor is not negative. -/
  factor_nonneg : 0 ≤ factor
  /-- Nor is the distance from one to the next number. -/
  epsilon_nonneg : 0 ≤ (Scalar.epsilon a.precision : K)
  /-- The rank check accepts the matrix. -/
  accepted : a.isSingular (.standard factor) = .ok false

/-- **From every start the step leads to the solution**: with the residual of a well-posed system
for its gradient and the matrix for its Hessian, the outcome is a move to the only solution. -/
theorem WellPosed.exists_outcome [IsStrictOrderedRing K] {factor : K} {a b x : DenseMatrix K}
    (h : WellPosed factor a b x) :
    ∃ g solution way, DenseMatrix.residual a b x = .ok g ∧
      outcome factor x g a = .ok (.moved solution way) ∧ a.mul solution = .ok b ∧
      ∀ y, a.mul y = .ok b → y = solution := by
  obtain ⟨hside, hstart, hside', hstart', hfaithful, hfactor, hepsilon, haccepted⟩ := h
  have hthreshold : 0 ≤ standardThreshold factor a.rows a.precision := by
    rw [standardThreshold, ExactScalar.mul_eq, ExactScalar.mul_eq, ExactScalar.ofNat_eq]
    exact mul_nonneg (mul_nonneg hfactor (Nat.cast_nonneg _)) hepsilon
  have hregular : ¬ a.Degenerate := not_degenerate_of_accepted hfaithful rfl hthreshold haccepted
  -- with the sizes identified, all three are grids of one precision
  obtain ⟨p, n, A, hn, rfl⟩ : ∃ (p : Precision) (n : ℕ) (A : Grid K n n) (hn : 0 < n),
      a = ⟨p, n, n, hn, hn, A⟩ := by
    obtain ⟨hn, _, A, ha⟩ := DenseMatrix.exists_eq_mk (a := a) (r := a.rows) (c := a.rows) rfl
      (Prod.ext rfl (DenseMatrix.cols_eq_of_accepted haccepted))
    exact ⟨_, _, A, hn, ha⟩
  obtain ⟨_, hone, B, rfl⟩ := DenseMatrix.exists_eq_mk hside' hside
  obtain ⟨_, _, X, rfl⟩ := DenseMatrix.exists_eq_mk hstart' hstart
  have hsolve (c : Grid K n 1) :
      ∃ y, solve (.standard factor) ⟨p, n, n, hn, hn, A⟩ ⟨p, n, 1, hn, hone, c⟩ = .ok y := by
    rcases solve_cases (b := ⟨p, n, 1, hn, hone, c⟩) haccepted rfl rfl with
      ⟨hdegenerate, -⟩ | ⟨-, hy⟩
    · exact absurd hdegenerate hregular
    · exact hy
  -- the way to the new point solves the system of the residual
  obtain ⟨way, hway⟩ := hsolve
    (((DenseMatrix.gridProduct p A X).zipWith (Scalar.sub p) B).map (Scalar.neg p))
  obtain ⟨D, rfl, hD⟩ := DenseMatrix.mul_eq_ok_iff.mp ((mul_eq_ok_iff_of_solve hway way).mpr rfl)
  have hsum : (DenseMatrix.mk p n 1 hn hone X).add ⟨p, n, 1, hn, hone, D⟩ =
      .ok ⟨p, n, 1, hn, hone, X.zipWith (Scalar.add p) D⟩ :=
    DenseMatrix.combine_mk .addition Scalar.add X D
  -- so the new point solves the system of the right-hand side, whose solution is the only one
  obtain ⟨solution, hsolution⟩ := hsolve B
  have hmul : (DenseMatrix.mk p n n hn hn A).mul ⟨p, n, 1, hn, hone, X.zipWith (Scalar.add p) D⟩ =
      .ok ⟨p, n, 1, hn, hone, B⟩ := DenseMatrix.mul_of_add_correction hD
  obtain rfl := (mul_eq_ok_iff_of_solve hsolution _).mp hmul
  refine ⟨_, _, ⟨p, n, 1, hn, hone, D⟩, DenseMatrix.residual_mk A B X, ?_, hmul,
    fun y hy => (mul_eq_ok_iff_of_solve hsolution y).mp hy⟩
  exact outcome_eq_moved_iff.mpr ⟨rfl, rfl, DenseMatrix.isFinite_eq_true _,
    DenseMatrix.isFinite_eq_true _, hway, hsum, DenseMatrix.isFinite_eq_true _⟩

/-- A step on the residual of a well-posed system succeeds and leaves the point at the solution. -/
theorem WellPosed.exists_step [IsStrictOrderedRing K] {df ddf : Evaluator K E} {r : Ref}
    {w : World K E} {a b x solution : DenseMatrix K} (h : WellPosed w.settings.factor a b x)
    (hdf : df.Computes (DenseMatrix.residual a b)) (hddf : ddf.Computes fun _ => .ok a)
    (hx : w.store.get? r = some x) (hsolution : a.mul solution = .ok b) :
    ∃ w', step df ddf (.matrix r) w = (.ok .success, w') ∧ w'.store.get? r = some solution := by
  obtain ⟨g, point, way, hg, ho, -, hunique⟩ := h.exists_outcome
  obtain rfl := hunique solution hsolution
  have hvector : x.isVector = true := beq_iff_eq.mpr (Prod.mk.inj h.start).2
  obtain ⟨w₂, hx₂, -, hstep⟩ := step_of_computes hdf hddf hx hvector hg rfl
  rw [ho] at hstep
  have hpoint : ((StepOutcome.moved solution way).settle r w₂.store).get? r = some solution :=
    StepOutcome.get?_settle_moved (Store.lt_size_of_get? hx₂)
  exact ⟨_, hstep, hpoint⟩

end Newton

end NewtonRaphson
