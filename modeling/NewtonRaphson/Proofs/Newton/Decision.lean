import NewtonRaphson.Proofs.Calls
import NewtonRaphson.Proofs.Newton.Statuses

/-! # In what order a step decides

Several things may be wrong with a step at once. The one that it ends by is the first of a fixed
list, and every rung of the list is stated with the negations of the ones above it:

* **`Elimination.MeetsZeroPivot`** and **`Untrustworthy`** — why a system whose sizes and precisions
  agree is not solved.
* **`Newton.Verdict factor x g h out`** — what a step comes to at a point with given derivatives;
  `Newton.verdict_iff` says that this is what `outcome` computes.
* **`Newton.Decided df ddf w x out calls after`** — the whole list, with the calls of the evaluators
  up to the rung and with what the point holds below it.
* **`Newton.step_decided`** — a step ends by the rung that applies, and only the evaluators can
  bring the fault of a singular system to its caller. -/

namespace NewtonRaphson

variable {S E : Type}

/-! ## (1) Systems without a trustworthy solution -/

namespace Elimination

variable [Scalar S]

/-- Elimination **meets a zero pivot**: that of the first column is zero, or elimination meets one
in the smaller system. -/
def MeetsZeroPivot (p : Precision) : {n : Nat} → Grid S n n → Prop
  | 0, _ => False
  | _ + 1, a =>
    Scalar.eq ((a.swapRows 0 (pivotRow a)).get 0 0) Scalar.zero = true ∨
      MeetsZeroPivot p (reduced p (a.swapRows 0 (pivotRow a)))

theorem meetsZeroPivot_succ (p : Precision) {n : Nat} (a : Grid S (n + 1) (n + 1)) :
    MeetsZeroPivot p a ↔ Scalar.eq ((a.swapRows 0 (pivotRow a)).get 0 0) Scalar.zero = true ∨
      MeetsZeroPivot p (reduced p (a.swapRows 0 (pivotRow a))) := Iff.rfl

/-- Elimination fails exactly if it meets a zero pivot, whatever the right-hand sides. -/
theorem solve?_eq_none_iff_meetsZeroPivot (p : Precision) {n k : Nat} (a : Grid S n n)
    (b : Grid S n k) : solve? p a b = none ↔ MeetsZeroPivot p a := by
  induction n with
  | zero => exact ⟨nofun, False.elim⟩
  | succ n ih =>
    rw [solve?, meetsZeroPivot_succ]
    by_cases hzero : Scalar.eq ((a.swapRows 0 (pivotRow a)).get 0 0) Scalar.zero = true
    · rw [if_pos hzero]
      exact iff_of_true rfl (.inl hzero)
    · rw [if_neg hzero, Option.map_eq_none_iff, ih]
      exact (or_iff_right hzero).symm

end Elimination

section Solving

variable [SingularValues S] {threshold : Threshold S} {a b : DenseMatrix S}

/-- Why a system has **no trustworthy solution**, and the fault that says so. -/
inductive Untrustworthy (threshold : Threshold S) (a b : DenseMatrix S) : Fault → Prop
  /-- The matrix fails the rank check. -/
  | rank (hcheck : a.isSingular threshold = .ok true) :
      Untrustworthy threshold a b (.rankDeficient a.shape)
  /-- The matrix passes the rank check, but elimination meets a zero pivot. -/
  | pivot {g : Grid S a.rows a.rows} (hcheck : a.isSingular threshold = .ok false)
      (hg : a.square = .ok g) (hzero : Elimination.MeetsZeroPivot a.precision g) :
      Untrustworthy threshold a b .zeroPivot
  /-- Elimination succeeds, but what it finds is not finite. -/
  | infinite {y : DenseMatrix S} (hcheck : a.isSingular threshold = .ok false)
      (hy : Eliminates a b y) (hinfinite : y.isFinite = false) :
      Untrustworthy threshold a b .infiniteSolution

/-- The solution `y` of a system is **trusted**: its matrix passes the rank check, and elimination
finds `y`, which is finite. -/
structure Trusted (threshold : Threshold S) (a b y : DenseMatrix S) : Prop where
  /-- The matrix passes the rank check. -/
  accepted : a.isSingular threshold = .ok false
  /-- Elimination finds the solution. -/
  eliminated : Eliminates a b y
  /-- The solution is finite. -/
  finite : y.isFinite = true

/-- Every cause for distrust is a fault of the singular kind. -/
theorem Untrustworthy.isSingular_eq {cause : Fault} (h : Untrustworthy threshold a b cause) :
    cause.isSingular = true := by
  cases h with
  | rank hcheck => rfl
  | pivot hcheck hg hzero => rfl
  | infinite hcheck hy hinfinite => rfl

/-- A system that fits and has no trustworthy solution is refused for the cause of that. -/
theorem solve_of_untrustworthy {cause : Fault} (hsquare : a.cols = a.rows) (hrows : b.rows = a.rows)
    (hprecision : a.precision = b.precision) (h : Untrustworthy threshold a b cause) :
    solve threshold a b = .error cause := by
  rw [solve_of_fits hsquare hrows hprecision]
  cases h with
  | rank hcheck => rw [hcheck]
  | pivot hcheck hg hzero =>
    rw [DenseMatrix.square_of_eq hsquare] at hg
    obtain rfl := Except.ok.inj hg
    rw [hcheck, (Elimination.solve?_eq_none_iff_meetsZeroPivot _ _ _).mpr hzero]
  | infinite hcheck hy hinfinite =>
    obtain ⟨_, _, x, hx, rfl⟩ := hy
    rw [hcheck, hx]
    dsimp only
    rw [hinfinite]
    rfl

/-- With the standard rank check a system that fits has a trusted solution or a cause for
distrust. -/
theorem trusted_or_untrustworthy (factor : S) (hsquare : a.cols = a.rows)
    (hrows : b.rows = a.rows) :
    (∃ y, Trusted (.standard factor) a b y) ∨ ∃ cause,
      Untrustworthy (.standard factor) a b cause := by
  obtain ⟨deficient, hcheck⟩ := DenseMatrix.exists_isSingular (.standard factor) hsquare rfl
  cases deficient with
  | true => exact .inr ⟨_, .rank hcheck⟩
  | false =>
    rcases hx : Elimination.solve? a.precision (a.grid.castCols hsquare)
      (b.grid.castRows hrows) with _ | x
    · have hzero := (Elimination.solve?_eq_none_iff_meetsZeroPivot _ _ _).mp hx
      exact .inr ⟨_, .pivot hcheck (DenseMatrix.square_of_eq hsquare) hzero⟩
    · have hy : Eliminates a b ⟨a.precision, a.rows, b.cols, a.rows_pos, b.cols_pos, x⟩ :=
        ⟨hsquare, hrows, x, hx, rfl⟩
      cases hfinite :
        (DenseMatrix.mk a.precision a.rows b.cols a.rows_pos b.cols_pos x).isFinite with
      | true => exact .inl ⟨_, hcheck, hy, hfinite⟩
      | false => exact .inr ⟨_, .infinite hcheck hy hfinite⟩

/-- A trusted solution is the one that solving returns. -/
theorem Trusted.solve_eq {y : DenseMatrix S} (h : Trusted threshold a b y)
    (hprecision : a.precision = b.precision) : solve threshold a b = .ok y :=
  solve_eq_ok_iff.mpr ⟨hprecision, h.accepted, h.eliminated, h.finite⟩

/-- What elimination finds has the precision of the matrix, a row for each of its rows, and a column
for each right-hand side. -/
theorem Eliminates.form {y : DenseMatrix S} (h : Eliminates a b y) :
    y.precision = a.precision ∧ y.shape = (a.rows, b.cols) := by
  obtain ⟨_, _, x, -, rfl⟩ := h
  exact ⟨rfl, rfl⟩

/-- A sum is refused for the precisions or the shapes of its operands. -/
theorem DenseMatrix.kind_of_add {cause : Fault} (h : a.add b = .error cause) :
    cause.kind = .type ∨ cause.kind = .value := by
  rw [add, combine] at h
  split at h
  · split at h
    · cases h
    · obtain rfl := Except.error.inj h
      exact .inr rfl
  · obtain rfl := Except.error.inj h
    exact .inl rfl

end Solving

namespace Newton

variable [SingularValues S]

/-! ## (2) The rungs below the evaluators -/

/-- Gradient and Hessian are **usable** at a point: they have the sizes it demands and are finite.
Nothing is said of precisions. -/
structure Usable (x g h : DenseMatrix S) : Prop where
  /-- The gradient is a column as long as the point. -/
  gradient_shape : g.shape = (x.rows, 1)
  /-- The Hessian is square, with a row for each entry of the point. -/
  hessian_shape : h.shape = (x.rows, x.rows)
  /-- The gradient is finite. -/
  gradient_finite : g.isFinite = true
  /-- The Hessian is finite. -/
  hessian_finite : h.isFinite = true

/-- **What a step comes to** at the point `x` with gradient `g` and Hessian `h`, rung by rung. -/
inductive Verdict (factor : S) (x g h : DenseMatrix S) : Except Fault (StepOutcome S) → Prop
  /-- The gradient does not fit the point. -/
  | gradientShape (hg : g.shape ≠ (x.rows, 1)) :
      Verdict factor x g h (.error (.answerShape .gradient g.shape (x.rows, 1)))
  /-- The gradient fits, the Hessian does not. -/
  | hessianShape (hg : g.shape = (x.rows, 1)) (hh : h.shape ≠ (x.rows, x.rows)) :
      Verdict factor x g h (.error (.answerShape .hessian h.shape (x.rows, x.rows)))
  /-- Both fit, and one is not finite. -/
  | nonFinite (hg : g.shape = (x.rows, 1)) (hh : h.shape = (x.rows, x.rows))
      (hinfinite : g.isFinite = false ∨ h.isFinite = false) : Verdict factor x g h (.ok .nonFinite)
  /-- Both are usable, but their precisions differ. -/
  | mixedDerivatives (husable : Usable x g h) (hmixed : h.precision ≠ g.precision) :
      Verdict factor x g h (.error (.mixedPrecision .solving h.precision g.precision))
  /-- The Newton system has no trustworthy solution. -/
  | singular {cause : Fault} (husable : Usable x g h) (hsame : h.precision = g.precision)
      (hcause : Untrustworthy (.standard factor) h g.neg cause) :
      Verdict factor x g h (.ok (.singular cause))
  /-- The solution is trusted, but the point has another precision. -/
  | mixedPoint {way : DenseMatrix S} (husable : Usable x g h) (hsame : h.precision = g.precision)
      (hway : Trusted (.standard factor) h g.neg way) (hmixed : x.precision ≠ h.precision) :
      Verdict factor x g h (.error (.mixedPrecision .addition x.precision h.precision))
  /-- The sum of point and solution is not finite. -/
  | overflow {way point : DenseMatrix S} (husable : Usable x g h)
      (hsame : h.precision = g.precision)
      (hway : Trusted (.standard factor) h g.neg way) (hpoint : x.add way = .ok point)
      (hinfinite : point.isFinite = false) : Verdict factor x g h (.ok .overflow)
  /-- The sum of point and solution is the new point. -/
  | moved {way point : DenseMatrix S} (husable : Usable x g h) (hsame : h.precision = g.precision)
      (hway : Trusted (.standard factor) h g.neg way) (hpoint : x.add way = .ok point)
      (hfinite : point.isFinite = true) : Verdict factor x g h (.ok (.moved point way))

section Verdict

variable {factor : S} {x g h : DenseMatrix S}

/-- The Newton system of usable derivatives is square, and its right-hand side fits. -/
theorem Usable.system (husable : Usable x g h) : h.cols = h.rows ∧ g.neg.rows = h.rows := by
  obtain ⟨hhr, hhc⟩ := Prod.mk.inj husable.hessian_shape
  obtain ⟨hgr, -⟩ := Prod.mk.inj husable.gradient_shape
  exact ⟨hhc.trans hhr.symm, hgr.trans hhr.symm⟩

/-- With usable derivatives the outcome is that of the Newton system and of the sum. -/
theorem Usable.outcome_eq (husable : Usable x g h) (factor : S) :
    outcome factor x g h =
      match solve (.standard factor) h g.neg with
      | .error cause => if cause.isSingular then .ok (.singular cause) else .error cause
      | .ok way =>
        match x.add way with
        | .error cause => .error cause
        | .ok point => .ok (if point.isFinite then .moved point way else .overflow) :=
  outcome_of_finite husable.gradient_shape husable.hessian_shape
    (by rw [husable.gradient_finite, husable.hessian_finite]; rfl)

/-- What is decided is the outcome. -/
theorem Verdict.outcome_eq {out : Except Fault (StepOutcome S)} (hv : Verdict factor x g h out) :
    outcome factor x g h = out := by
  cases hv with
  | gradientShape hg => exact outcome_of_gradient_shape hg
  | hessianShape hg hh => exact outcome_of_hessian_shape hg hh
  | nonFinite hg hh hinfinite =>
    refine outcome_of_not_finite hg hh (Bool.and_eq_false_iff.mpr hinfinite)
  | mixedDerivatives husable hmixed =>
    obtain ⟨hsquare, hrows⟩ := husable.system
    rw [husable.outcome_eq, solve_of_precision_ne hsquare hrows hmixed]
    rfl
  | singular husable hsame hcause =>
    obtain ⟨hsquare, hrows⟩ := husable.system
    rw [husable.outcome_eq, solve_of_untrustworthy hsquare hrows hsame hcause]
    dsimp only
    rw [if_pos hcause.isSingular_eq]
  | mixedPoint husable hsame hway hmixed =>
    obtain ⟨hprecision, -⟩ := hway.eliminated.form
    rw [husable.outcome_eq, hway.solve_eq hsame]
    dsimp only
    rw [DenseMatrix.add, DenseMatrix.combine, hprecision, if_neg hmixed]
  | overflow husable hsame hway hpoint hinfinite =>
    rw [husable.outcome_eq, hway.solve_eq hsame]
    dsimp only
    rw [hpoint]
    dsimp only
    rw [hinfinite]
    rfl
  | moved husable hsame hway hpoint hfinite =>
    rw [husable.outcome_eq, hway.solve_eq hsame]
    dsimp only
    rw [hpoint]
    dsimp only
    rw [if_pos hfinite]

/-- A trusted solution can be added to a column vector of its precision. -/
theorem Usable.exists_add (husable : Usable x g h) (hvector : x.isVector = true)
    {way : DenseMatrix S} (hway : Eliminates h g.neg way) (hsame : x.precision = h.precision) :
    ∃ point, x.add way = .ok point := by
  obtain ⟨hprecision, hshape⟩ := hway.form
  obtain ⟨hhr, -⟩ := Prod.mk.inj husable.hessian_shape
  obtain ⟨-, hgc⟩ := Prod.mk.inj husable.gradient_shape
  have hxc : x.cols = 1 := of_decide_eq_true hvector
  refine DenseMatrix.exists_add (hsame.trans hprecision.symm) (Eq.trans ?_ hshape.symm)
  exact Prod.ext hhr.symm (hxc.trans hgc.symm)

/-- At a column vector one of the rungs applies. -/
theorem exists_verdict (factor : S) (hvector : x.isVector = true) (g h : DenseMatrix S) :
    ∃ out, Verdict factor x g h out := by
  by_cases hg : g.shape = (x.rows, 1)
  · by_cases hh : h.shape = (x.rows, x.rows)
    · by_cases hfinite : g.isFinite = false ∨ h.isFinite = false
      · exact ⟨_, .nonFinite hg hh hfinite⟩
      · -- from here on the derivatives are usable
        simp only [not_or, Bool.not_eq_false] at hfinite
        have husable : Usable x g h := ⟨hg, hh, hfinite.1, hfinite.2⟩
        by_cases hsame : h.precision = g.precision
        · obtain ⟨hsquare, hrows⟩ := husable.system
          rcases trusted_or_untrustworthy factor hsquare hrows with ⟨way, hway⟩ | ⟨cause, hcause⟩
          · by_cases hx : x.precision = h.precision
            · obtain ⟨point, hpoint⟩ := husable.exists_add hvector hway.eliminated hx
              cases hsum : point.isFinite with
              | false => exact ⟨_, .overflow husable hsame hway hpoint hsum⟩
              | true => exact ⟨_, .moved husable hsame hway hpoint hsum⟩
            · exact ⟨_, .mixedPoint husable hsame hway hx⟩
          · exact ⟨_, .singular husable hsame hcause⟩
        · exact ⟨_, .mixedDerivatives husable hsame⟩
    · exact ⟨_, .hessianShape hg hh⟩
  · exact ⟨_, .gradientShape hg⟩

/-- **The outcome is decided rung by rung**: at a column vector it is what the rung that applies
says. -/
theorem verdict_iff (hvector : x.isVector = true) {out : Except Fault (StepOutcome S)} :
    Verdict factor x g h out ↔ outcome factor x g h = out := by
  constructor
  · exact Verdict.outcome_eq
  · rintro rfl
    obtain ⟨out, hout⟩ := exists_verdict factor hvector g h
    rwa [hout.outcome_eq]

/-- Below the evaluators a step is refused for a kind or a value only, at any point. -/
theorem kind_of_outcome {cause : Fault} (ho : outcome factor x g h = .error cause) :
    cause.kind = .type ∨ cause.kind = .value := by
  by_cases hg : g.shape = (x.rows, 1)
  · by_cases hh : h.shape = (x.rows, x.rows)
    · by_cases hfinite : g.isFinite = false ∨ h.isFinite = false
      · rw [outcome_of_not_finite hg hh (Bool.and_eq_false_iff.mpr hfinite)] at ho
        cases ho
      · simp only [not_or, Bool.not_eq_false] at hfinite
        have husable : Usable x g h := ⟨hg, hh, hfinite.1, hfinite.2⟩
        by_cases hsame : h.precision = g.precision
        · obtain ⟨hsquare, hrows⟩ := husable.system
          rcases trusted_or_untrustworthy factor hsquare hrows with
            ⟨way, hway⟩ | ⟨singular, hsingular⟩
          · rw [husable.outcome_eq, hway.solve_eq hsame] at ho
            dsimp only at ho
            rcases hsum : x.add way with refusal | point
            · rw [hsum] at ho
              obtain rfl := Except.error.inj ho
              exact DenseMatrix.kind_of_add hsum
            · rw [hsum] at ho
              cases ho
          · rw [(Verdict.singular husable hsame hsingular).outcome_eq] at ho
            cases ho
        · rw [(Verdict.mixedDerivatives husable hsame).outcome_eq] at ho
          obtain rfl := Except.error.inj ho
          exact .inl rfl
    · rw [outcome_of_hessian_shape hg hh] at ho
      obtain rfl := Except.error.inj ho
      exact .inr rfl
  · rw [outcome_of_gradient_shape hg] at ho
    obtain rfl := Except.error.inj ho
    exact .inr rfl

end Verdict

/-! ## (3) The whole list -/

/-- **How a step is decided**: what it returns from the world `w` at a value, the calls it makes of
its evaluators, and what the value holds in the end. -/
inductive Decided (df ddf : Evaluator S E) (w : World S E) :
    Value → Except Fault Status → List (Call S) → Option (DenseMatrix S) → Prop
  /-- The point is no matrix. -/
  | pointKind (d : Datum) : Decided df ddf w (.plain d) (.error (.pointKind d.kindName)) [] none
  /-- The point is a matrix, but no column vector. -/
  | pointShape {r : Ref} {x : DenseMatrix S} (hx : w.store.get? r = some x)
      (hvector : x.isVector = false) :
      Decided df ddf w (.matrix r) (.error (.pointShape x.shape)) [] (some x)
  /-- The gradient is asked for, and its fault is passed on. -/
  | gradientFault {r : Ref} {x : DenseMatrix S} {cause : Fault} {w₁ : World S E}
      (hx : w.store.get? r = some x) (hvector : x.isVector = true)
      (hg : df (.matrix r) w = (.error cause, w₁)) :
      Decided df ddf w (.matrix r) (.error cause)
        [.asked .gradient (.matrix r) (some x) none] (some x)
  /-- The gradient is asked for, and is no matrix. -/
  | gradientKind {r : Ref} {x : DenseMatrix S} {d : Datum} {w₁ : World S E}
      (hx : w.store.get? r = some x) (hvector : x.isVector = true)
      (hg : df (.matrix r) w = (.ok (.plain d), w₁)) :
      Decided df ddf w (.matrix r) (.error (.answerKind .gradient d.kindName))
        [.asked .gradient (.matrix r) (some x) none] (some x)
  /-- The gradient is a matrix; the Hessian is asked for, and its fault is passed on. -/
  | hessianFault {r g : Ref} {x : DenseMatrix S} {cause : Fault} {w₁ w₂ : World S E}
      (hx : w.store.get? r = some x) (hvector : x.isVector = true)
      (hg : df (.matrix r) w = (.ok (.matrix g), w₁))
      (hh : ddf (.matrix r) w₁ = (.error cause, w₂)) :
      Decided df ddf w (.matrix r) (.error cause)
        [.asked .gradient (.matrix r) (some x) (some (w₁.store.get g)),
          .asked .hessian (.matrix r) (some x) none] (some x)
  /-- The gradient is a matrix; the Hessian is asked for, and is none. -/
  | hessianKind {r g : Ref} {x : DenseMatrix S} {d : Datum} {w₁ w₂ : World S E}
      (hx : w.store.get? r = some x) (hvector : x.isVector = true)
      (hg : df (.matrix r) w = (.ok (.matrix g), w₁))
      (hh : ddf (.matrix r) w₁ = (.ok (.plain d), w₂)) :
      Decided df ddf w (.matrix r) (.error (.answerKind .hessian d.kindName))
        [.asked .gradient (.matrix r) (some x) (some (w₁.store.get g)),
          .asked .hessian (.matrix r) (some x) none] (some x)
  /-- Both are matrices, and the rest is decided by what they hold. -/
  | answered {r g h : Ref} {x : DenseMatrix S} {out : Except Fault (StepOutcome S)}
      {w₁ w₂ : World S E} (hx : w.store.get? r = some x) (hvector : x.isVector = true)
      (hg : df (.matrix r) w = (.ok (.matrix g), w₁))
      (hh : ddf (.matrix r) w₁ = (.ok (.matrix h), w₂))
      (hout : Verdict w₂.settings.factor x (w₂.store.get g) (w₂.store.get h) out) :
      Decided df ddf w (.matrix r) (out.map StepOutcome.status)
        [.asked .gradient (.matrix r) (some x) (some (w₁.store.get g)),
          .asked .hessian (.matrix r) (some x) (some (w₂.store.get h))] (some
          (StepOutcome.pointAfter x out))

section Steps

variable {df ddf : Evaluator S E} {w : World S E} {r : Ref} {x : DenseMatrix S}

omit [SingularValues S] in
/-- A fault of an evaluator is passed on. -/
theorem evaluate_of_error {f : Evaluator S E} {y : Value} {cause : Fault} {w' : World S E}
    (h : f y w = (.error cause, w')) (which : Derivative) :
    evaluate which f y w = (.error cause, w') :=
  Action.bind_of_error h

omit [SingularValues S] in
/-- An evaluator is refused for its own fault, or for the kind of its answer. -/
theorem kind_of_evaluate {which : Derivative} {f : Evaluator S E} {y : Value} {cause : Fault}
    {w' : World S E} (h : evaluate which f y w = (.error cause, w')) :
    (f y w).1 = .error cause ∨ cause.kind = .type := by
  rcases hf : f y w with ⟨raised | ⟨q⟩ | d, w₁⟩
  · rw [evaluate_of_error hf] at h
    cases h
    exact .inl rfl
  · rw [evaluate_eq_ok_iff.mpr hf] at h
    cases h
  · rw [evaluate_of_plain hf] at h
    cases h
    exact .inr rfl

/-- An evaluator that is refused is refused under watch, and the log tells where it was asked. -/
theorem evaluate_watched_of_error {which : Derivative} {f : Evaluator S E} {y : Value}
    {cause : Fault} {w' : World S E} (h : evaluate which f y w = (.error cause, w'))
    (log : List (Call S)) :
    evaluate which (f.watched which) y (w.watched log) =
      (.error cause, w'.watched (log ++ [.asked which y (w.held y) none])) := by
  rcases hf : f y w with ⟨raised | ⟨q⟩ | d, w₁⟩
  · rw [evaluate_of_error hf] at h
    cases h
    exact evaluate_of_error (Action.noting_of_eq hf log) which
  · rw [evaluate_eq_ok_iff.mpr hf] at h
    cases h
  · rw [evaluate_of_plain hf] at h
    cases h
    exact evaluate_of_plain (Action.noting_of_eq hf log) which

/-- A step whose gradient is refused ends there, and the Hessian is not asked for. -/
theorem step_of_gradient_refused {cause : Fault} {w₁ : World S E}
    (hdf : (df (.matrix r)).Leaves (.matrix r)) (hx : w.store.get? r = some x)
    (hvector : x.isVector = true) (hg : evaluate .gradient df (.matrix r) w = (.error cause, w₁)) :
    ∃ w', step df ddf (.matrix r) w = (.error cause, w') ∧ w'.held (.matrix r) = some x ∧
      ∀ log : List (Call S),
        step (df.watched .gradient) (ddf.watched .hessian) (.matrix r) (w.watched log) =
          (.error cause, w'.watched (log ++ [.asked .gradient (.matrix r) (some x) none])) := by
  have hread : (w.store.get r).isVector = true := by rwa [Store.get_of_get? hx]
  refine ⟨w₁, ?_, (leaves_evaluate hdf).held_of_eq hg hx, fun log => ?_⟩
  · rw [step_matrix, if_pos hread, hg]
  · have hwatched := evaluate_watched_of_error hg log
    rw [World.held_matrix, hx] at hwatched
    rw [step_matrix, if_pos (show ((w.watched log).store.get r).isVector = true from hread),
      hwatched]

/-- A step whose Hessian is refused ends there. -/
theorem step_of_hessian_refused {g : Ref} {cause : Fault} {w₁ w₂ : World S E}
    (hdf : (df (.matrix r)).Leaves (.matrix r)) (hddf : (ddf (.matrix r)).Leaves (.matrix r))
    (hx : w.store.get? r = some x) (hvector : x.isVector = true)
    (hg : df (.matrix r) w = (.ok (.matrix g), w₁))
    (hh : evaluate .hessian ddf (.matrix r) w₁ = (.error cause, w₂)) :
    ∃ w', step df ddf (.matrix r) w = (.error cause, w') ∧ w'.held (.matrix r) = some x ∧
      ∀ log : List (Call S),
        step (df.watched .gradient) (ddf.watched .hessian) (.matrix r) (w.watched log) =
          (.error cause, w'.watched (log ++
            [.asked .gradient (.matrix r) (some x) (some (w₁.store.get g)),
              .asked .hessian (.matrix r) (some x) none])) := by
  have hread : (w.store.get r).isVector = true := by rwa [Store.get_of_get? hx]
  have hx₁ : w₁.held (.matrix r) = some x := hdf.held_of_eq hg hx
  refine ⟨w₂, ?_, (leaves_evaluate hddf).held_of_eq hh hx₁, fun log => ?_⟩
  · rw [step_matrix, if_pos hread, evaluate_eq_ok_iff.mpr hg]
    dsimp only
    rw [hh]
  · have hg' := Evaluator.watched_of_eq .gradient hg log
    rw [World.held_matrix, hx] at hg'
    have hh' := evaluate_watched_of_error hh
      (log ++ [.asked .gradient (.matrix r) (some x) (some (w₁.store.get g))])
    rw [hx₁, List.append_assoc] at hh'
    rw [step_matrix, if_pos (show ((w.watched log).store.get r).isVector = true from hread),
      evaluate_eq_ok_iff.mpr hg']
    dsimp only
    rw [hh']
    rfl

/-- A step whose outcome is a fault is refused. -/
theorem step_of_refusal {g h : Ref} {cause : Fault} {w₁ w₂ : World S E}
    (hx : (w.store.get r).isVector = true) (hg : df (.matrix r) w = (.ok (.matrix g), w₁))
    (hh : ddf (.matrix r) w₁ = (.ok (.matrix h), w₂))
    (ho : outcome w₂.settings.factor (w₂.store.get r) (w₂.store.get g) (w₂.store.get h) =
      .error cause) :
    step df ddf (.matrix r) w = (.error cause, w₂) := by
  rw [step_of_answers hx hg hh, ho]

/-- A step whose evaluators answer with matrices comes to the outcome at these. -/
theorem step_of_answered {g h : Ref} {out : Except Fault (StepOutcome S)} {w₁ w₂ : World S E}
    (hdf : (df (.matrix r)).Leaves (.matrix r)) (hddf : (ddf (.matrix r)).Leaves (.matrix r))
    (hx : w.store.get? r = some x) (hvector : x.isVector = true)
    (hg : df (.matrix r) w = (.ok (.matrix g), w₁))
    (hh : ddf (.matrix r) w₁ = (.ok (.matrix h), w₂))
    (hout : outcome w₂.settings.factor x (w₂.store.get g) (w₂.store.get h) = out) :
    ∃ w', step df ddf (.matrix r) w = (out.map StepOutcome.status, w') ∧
      w'.held (.matrix r) = some (StepOutcome.pointAfter x out) ∧
      ∀ log : List (Call S),
        step (df.watched .gradient) (ddf.watched .hessian) (.matrix r) (w.watched log) =
          (out.map StepOutcome.status, w'.watched (log ++
            [.asked .gradient (.matrix r) (some x) (some (w₁.store.get g)),
              .asked .hessian (.matrix r) (some x) (some (w₂.store.get h))])) := by
  have hread : (w.store.get r).isVector = true := by rwa [Store.get_of_get? hx]
  have hx₁ : w₁.held (.matrix r) = some x := hdf.held_of_eq hg hx
  have hx₂ : w₂.held (.matrix r) = some x := hddf.held_of_eq hh hx₁
  -- what the evaluators are asked and answer under watch
  have hg' : ∀ log : List (Call S), df.watched .gradient (.matrix r) (w.watched log) =
      (.ok (.matrix g),
        w₁.watched (log ++ [.asked .gradient (.matrix r) (some x) (some (w₁.store.get g))])) := by
    intro log
    rw [Evaluator.watched_of_eq .gradient hg log, World.held_matrix, hx]
  have hh' : ∀ log : List (Call S), ddf.watched .hessian (.matrix r) (w₁.watched log) =
      (.ok (.matrix h),
        w₂.watched (log ++ [.asked .hessian (.matrix r) (some x) (some (w₂.store.get h))])) := by
    intro log
    rw [Evaluator.watched_of_eq .hessian hh log, hx₁]
  rw [← Store.get_of_get? hx₂] at hout
  cases out with
  | error cause =>
    refine ⟨w₂, step_of_refusal hread hg hh hout, hx₂, fun log => ?_⟩
    have hstep := step_of_refusal (w := w.watched log) hread (hg' log) (hh' _) hout
    rwa [List.append_assoc] at hstep
  | ok o =>
    have hstep := step_of_outcome hread hg hh hout
    rw [Store.get_of_get? hx₂] at hstep
    refine ⟨o.carryOut r x w₂, hstep, StepOutcome.get?_settle hx₂, fun log => ?_⟩
    have hwatched := step_of_outcome (w := w.watched log) hread (hg' log) (hh' _) hout
    rw [List.append_assoc, show (w₂.watched _).store.get r =
      x from Store.get_of_get? hx₂] at hwatched
    exact hwatched

end Steps

section Decision

variable {df ddf : Evaluator S E} {w : World S E} {x : Value}

/-- A step ends by the rung that applies, makes the calls of that rung, and leaves the point as the
rung says. -/
theorem Decided.step_eq {out : Except Fault Status} {calls : List (Call S)}
    {after : Option (DenseMatrix S)} (hdf : (df x).Leaves x) (hddf : (ddf x).Leaves x)
    (hd : Decided df ddf w x out calls after) :
    ∃ w', step df ddf x w = (out, w') ∧ w'.held x = after ∧
      ∀ log : List (Call S), step (df.watched .gradient) (ddf.watched .hessian) x (w.watched log) =
        (out, w'.watched (log ++ calls)) := by
  cases hd with
  | pointKind d => exact ⟨w, rfl, rfl, fun log => by rw [List.append_nil]; rfl⟩
  | @pointShape r m hx hvector =>
    refine ⟨w, ?_, hx, fun log => ?_⟩
    · rw [step_matrix, Store.get_of_get? hx, hvector]
      rfl
    · have hx' : (w.watched log).store.get r = m := Store.get_of_get? hx
      rw [step_matrix, hx', hvector, List.append_nil]
      rfl
  | gradientFault hx hvector hg =>
    exact step_of_gradient_refused hdf hx hvector (evaluate_of_error hg _)
  | gradientKind hx hvector hg =>
    exact step_of_gradient_refused hdf hx hvector (evaluate_of_plain hg _)
  | hessianFault hx hvector hg hh =>
    exact step_of_hessian_refused hdf hddf hx hvector hg (evaluate_of_error hh _)
  | hessianKind hx hvector hg hh =>
    exact step_of_hessian_refused hdf hddf hx hvector hg (evaluate_of_plain hh _)
  | answered hx hvector hg hh hout =>
    exact step_of_answered hdf hddf hx hvector hg hh hout.outcome_eq

/-- At a value whose matrix is in the store, one of the rungs applies. -/
theorem exists_decided (df ddf : Evaluator S E) (hx : ∀ r, x = .matrix r → r < w.store.size) :
    ∃ out calls after, Decided df ddf w x out calls after := by
  cases x with
  | plain d => exact ⟨_, _, _, .pointKind d⟩
  | matrix r =>
    have hr : w.store.get? r = some (w.store.get r) := Store.get?_of_lt (hx r rfl)
    cases hvector : (w.store.get r).isVector with
    | false => exact ⟨_, _, _, .pointShape hr hvector⟩
    | true =>
      rcases hg : df (.matrix r) w with ⟨cause | ⟨g⟩ | d, w₁⟩
      · exact ⟨_, _, _, .gradientFault hr hvector hg⟩
      · rcases hh : ddf (.matrix r) w₁ with ⟨cause | ⟨h⟩ | d, w₂⟩
        · exact ⟨_, _, _, .hessianFault hr hvector hg hh⟩
        · obtain ⟨out, hout⟩ :=
            exists_verdict w₂.settings.factor hvector (w₂.store.get g) (w₂.store.get h)
          exact ⟨_, _, _, .answered hr hvector hg hh hout⟩
        · exact ⟨_, _, _, .hessianKind hr hvector hg hh⟩
      · exact ⟨_, _, _, .gradientKind hr hvector hg⟩

/-- **The faults of a step** are those of its evaluators, and faults of kind and value. -/
theorem kind_of_step {cause : Fault} (hstep : (step df ddf x w).1 = .error cause) :
    (df x w).1 = .error cause ∨ (ddf x (df x w).2).1 = .error cause ∨
      cause.kind = .type ∨ cause.kind = .value := by
  have hend := step_ending df ddf x w
  generalize step df ddf x w = out at hend hstep
  cases hend with
  | pointKind d =>
    obtain rfl := Except.error.inj hstep
    exact .inr (.inr (.inl rfl))
  | pointShape hx =>
    obtain rfl := Except.error.inj hstep
    exact .inr (.inr (.inr rfl))
  | gradientRefused hx hg =>
    obtain rfl := Except.error.inj hstep
    rcases kind_of_evaluate hg with hraised | hkind
    · exact .inl hraised
    · exact .inr (.inr (.inl hkind))
  | hessianRefused hx hg hh =>
    obtain rfl := Except.error.inj hstep
    rw [hg]
    rcases kind_of_evaluate hh with hraised | hkind
    · exact .inr (.inl hraised)
    · exact .inr (.inr (.inl hkind))
  | refused hx hg hh ho =>
    obtain rfl := Except.error.inj hstep
    exact .inr (.inr (kind_of_outcome ho))
  | concluded hx hg hh ho => cases hstep

/-- **A step is decided in order.** At every value whose matrix is in the store, with evaluators
that leave it alone, a step returns `out`, makes exactly the calls `calls` and leaves `after` in the
point if and only if the list decides so: each rung excludes the ones above it, no evaluator is
called below a rung that does without it, and each is called at most once. In particular, on any
input, a fault that the step does not pass on from an evaluator is one of kind or value; the fault
of a singular system never is. -/
theorem step_decided (df ddf : Evaluator S E) (x : Value) (w : World S E) :
    ((∀ r, x = .matrix r → r < w.store.size) → (df x).Leaves x → (ddf x).Leaves x →
      ∀ (out : Except Fault Status) (calls : List (Call S)) (after : Option (DenseMatrix S)),
        Decided df ddf w x out calls after ↔
          ∃ w', step df ddf x w = (out, w') ∧ w'.held x = after ∧
            ∀ log : List (Call S),
              step (df.watched .gradient) (ddf.watched .hessian) x (w.watched log) =
                (out, w'.watched (log ++ calls))) ∧
      ∀ cause, (step df ddf x w).1 = .error cause →
        (df x w).1 = .error cause ∨ (ddf x (df x w).2).1 = .error cause ∨
          cause.isSingular = false ∧ (cause.kind = .type ∨ cause.kind = .value) := by
  refine ⟨fun hx hdf hddf out calls after => ⟨Decided.step_eq hdf hddf, ?_⟩, fun cause hstep => ?_⟩
  · rintro ⟨w', hstep, rfl, hwatched⟩
    obtain ⟨out', calls', after', hd⟩ := exists_decided df ddf hx
    obtain ⟨w'', hstep', rfl, hwatched'⟩ := hd.step_eq hdf hddf
    -- a step has one result, and one log under watch
    obtain ⟨rfl, rfl⟩ := Prod.mk.inj (hstep.symm.trans hstep')
    have hlog := (Prod.mk.inj ((hwatched []).symm.trans (hwatched' []))).2
    obtain rfl : calls = calls' := congrArg (fun v => v.caller.2) hlog
    exact hd
  · rcases kind_of_step hstep with hraised | hraised | hkind
    · exact .inl hraised
    · exact .inr (.inl hraised)
    · refine .inr (.inr ⟨?_, hkind⟩)
      rw [Fault.isSingular]
      rcases hkind with hkind | hkind <;> rw [hkind] <;> rfl

end Decision

/-! ### Two things wrong at once -/

/-- A matrix of one single-precision number. -/
def oneSingle (x : Float) : DenseMatrix Float :=
  .ofFn .single Nat.one_pos Nat.one_pos fun (_ _ : Fin 1) => x

/-- A point in single precision, with a gradient and a Hessian in double precision, the Hessian
zero. -/
def mixedWorld : World Float Unit :=
  ⟨⟨#[oneSingle 0.5, oneDouble 1.0, oneDouble 0.0]⟩, .initial, .initial, ()⟩

/-- The evaluator that always answers with one matrix. -/
def always (r : Ref) : Evaluator Float Unit := fun _ => pure (.matrix r)

/-- In the mixed world the Hessian is singular and the precision of the point is wrong; the Hessian
decides, after one call of each evaluator, and the point is left alone. -/
theorem step_decided_of_mixedWorld :
    (oneSingle 0.5).precision ≠ (oneDouble 0.0).precision ∧
      ∃ w', step (always 1) (always 2) (.matrix 0) mixedWorld = (.ok .singularHessian, w') ∧
        w'.held (.matrix 0) = some (oneSingle 0.5) ∧
        ∀ log : List (Call Float),
          step ((always 1).watched .gradient) ((always 2).watched .hessian) (.matrix 0)
              (mixedWorld.watched log) =
            (.ok .singularHessian, w'.watched (log ++
              [.asked .gradient (.matrix 0) (some (oneSingle 0.5)) (some (oneDouble 1.0)),
                .asked .hessian (.matrix 0) (some (oneSingle 0.5)) (some (oneDouble 0.0))])) := by
  have husable : Usable (oneSingle 0.5) (oneDouble 1.0) (oneDouble 0.0) :=
    ⟨rfl, rfl, by decide +kernel, by decide +kernel⟩
  have hcheck : (oneDouble 0.0).isSingular (.standard mixedWorld.settings.factor) = .ok true :=
    Action.eq_ok_of_toOption (by decide +kernel)
  have hg : always 1 (.matrix 0) mixedWorld = (.ok (.matrix 1), mixedWorld) := rfl
  have hh : always 2 (.matrix 0) mixedWorld = (.ok (.matrix 2), mixedWorld) := rfl
  have hd : Decided (always 1) (always 2) mixedWorld (.matrix 0) (.ok .singularHessian)
      [.asked .gradient (.matrix 0) (some (oneSingle 0.5)) (some (oneDouble 1.0)),
        .asked .hessian (.matrix 0) (some (oneSingle 0.5)) (some (oneDouble 0.0))]
      (some (oneSingle 0.5)) :=
    .answered rfl rfl hg hh (.singular husable rfl (.rank hcheck))
  have hin : ∀ r, Value.matrix 0 = .matrix r → r < mixedWorld.store.size := by
    rintro r ⟨⟩
    decide
  exact ⟨nofun, ((step_decided (always 1) (always 2) (.matrix 0) mixedWorld).1 hin
    (Action.leaves_pure _ _) (Action.leaves_pure _ _) _ _ _).mp hd⟩

end Newton

end NewtonRaphson
