import NewtonRaphson.Newton
import NewtonRaphson.Proofs.Action
import NewtonRaphson.Proofs.DenseMatrix

/-! # How a Newton step ends

A step has six ways to end, and every property of a step is read off them:

* **`Newton.Ending df ddf w x out`** — the step on `x` from the world `w` may end in `out`: the
  point is refused, an evaluator is refused, the outcome is a fault, or the outcome is carried out.
* **`Newton.step_ending`** — the end of a step is one of these.
* **`StepOutcome.settle`**, **`StepOutcome.pointAfter`** — what an outcome does to the store, and to
  the point; `Newton.conclude_apply` is the one equation that opens `conclude`.
* **`Newton.held_step_of_ne_success`** and **`Newton.leaves_step`** — a step that does not succeed
  touches no matrix, and one that succeeds none but its point's. -/

namespace NewtonRaphson

variable {S E : Type}

namespace StepOutcome

/-- The status an outcome is told by. -/
def status : StepOutcome S → Status
  | nonFinite => .numericalError
  | singular _ => .singularHessian
  | overflow => .numericalError
  | moved _ _ => .success

/-- The store after an outcome is carried out at a reference: only a move overwrites its matrix. -/
def settle (r : Ref) (s : Store S) : StepOutcome S → Store S
  | moved point _ => s.put r point
  | _ => s

/-- The point after the end of a step at the point `x`: only a move leads away. -/
def pointAfter (x : DenseMatrix S) : Except Fault (StepOutcome S) → DenseMatrix S
  | .ok (moved point _) => point
  | _ => x

/-- The record that an outcome at a point leaves. -/
def report [Scalar S] (x : DenseMatrix S) : StepOutcome S → Record S
  | nonFinite => ⟨Journal.stepLogger, Level.warning, .nonFiniteDerivative x.entries⟩
  | singular cause => ⟨Journal.stepLogger, Level.warning, .singularHessian cause⟩
  | overflow => ⟨Journal.stepLogger, Level.warning, .overflow⟩
  | moved point way => ⟨Journal.stepLogger, Level.debug, .step way.norm point.entries⟩

/-- The world after an outcome is carried out at a reference whose matrix is `x`. -/
def carryOut [Scalar S] (r : Ref) (x : DenseMatrix S) (w : World S E) (o : StepOutcome S) :
    World S E :=
  { w with store := o.settle r w.store, journal := w.journal.emit (o.report x) }

@[simp] theorem carryOut_store [Scalar S] (r : Ref) (x : DenseMatrix S) (w : World S E)
    (o : StepOutcome S) : (o.carryOut r x w).store = o.settle r w.store := rfl

/-- A step succeeds exactly if its outcome is a move. -/
theorem status_eq_success_iff {o : StepOutcome S} :
    o.status = .success ↔ ∃ point way, o = .moved point way := by
  cases o with
  | moved point way => exact ⟨fun _ => ⟨point, way, rfl⟩, fun _ => rfl⟩
  | nonFinite => exact ⟨nofun, nofun⟩
  | singular cause => exact ⟨nofun, nofun⟩
  | overflow => exact ⟨nofun, nofun⟩

/-- An outcome that is no move leaves the store as it is. -/
theorem settle_of_ne_success {o : StepOutcome S} (h : o.status ≠ .success) (r : Ref) (s : Store S) :
    o.settle r s = s := by
  cases o with
  | moved point way => exact absurd rfl h
  | nonFinite => rfl
  | singular cause => rfl
  | overflow => rfl

/-- An outcome touches no matrix but the one of its reference. -/
theorem get?_settle_of_ne (o : StepOutcome S) {r q : Ref} (h : q ≠ r) (s : Store S) :
    (o.settle r s).get? q = s.get? q := by
  cases o with
  | moved point way =>
    show (s.put r point).get? q = s.get? q
    rw [Store.get?_put, if_neg (Ne.symm h)]
  | nonFinite => rfl
  | singular cause => rfl
  | overflow => rfl

/-- After a move the reference holds the new point. -/
theorem get?_settle_moved {point way : DenseMatrix S} {r : Ref} {s : Store S} (h : r < s.size) :
    ((moved point way).settle r s).get? r = some point := by
  show (s.put r point).get? r = some point
  rw [Store.get?_put, if_pos rfl, if_pos h]

/-- Carrying out an outcome at a reference that holds `x` leaves the point after the outcome
there. -/
theorem get?_settle {o : StepOutcome S} {r : Ref} {s : Store S} {x : DenseMatrix S}
    (hx : s.get? r = some x) : (o.settle r s).get? r = some (pointAfter x (.ok o)) := by
  cases o with
  | moved point way => exact get?_settle_moved (Store.lt_size_of_get? hx)
  | nonFinite => exact hx
  | singular cause => exact hx
  | overflow => exact hx

/-- An outcome that is no move keeps the point. -/
theorem pointAfter_of_ne_success {o : StepOutcome S} (h : o.status ≠ .success)
    (x : DenseMatrix S) : pointAfter x (.ok o) = x := by
  cases o with
  | moved point way => exact absurd rfl h
  | nonFinite => rfl
  | singular cause => rfl
  | overflow => rfl

end StepOutcome

namespace Newton

/-! ## (1) Asking an evaluator -/

/-- An evaluator's answer as a reference: exactly a matrix is accepted. -/
theorem evaluate_eq_ok_iff {which : Derivative} {f : Evaluator S E} {x : Value}
    {w w' : World S E} {r : Ref} :
    evaluate which f x w = (.ok r, w') ↔ f x w = (.ok (.matrix r), w') := by
  unfold evaluate
  rw [Action.bind_eq_ok_iff]
  constructor
  · rintro ⟨v, w₁, hf, hv⟩
    cases v with
    | matrix q => cases hv; exact hf
    | plain d => cases hv
  · intro hf
    exact ⟨.matrix r, w', hf, rfl⟩

/-- A plain answer is refused. -/
theorem evaluate_of_plain {f : Evaluator S E} {x : Value} {w w' : World S E} {d : Datum}
    (hf : f x w = (.ok (.plain d), w')) (which : Derivative) :
    evaluate which f x w = (.error (.answerKind which d.kindName), w') := by
  rw [evaluate, Action.bind_of_ok hf]
  rfl

/-- Asking an evaluator touches no more than the evaluator itself. -/
theorem leaves_evaluate {which : Derivative} {f : Evaluator S E} {x y : Value}
    (hf : (f x).Leaves y) : (evaluate which f x).Leaves y := by
  refine hf.bind fun v => ?_
  cases v with
  | matrix r => exact Action.leaves_pure r y
  | plain d => exact Action.leaves_fail _ y

variable [SingularValues S]

/-! ## (2) The outcome of a step -/

section Outcome

variable {factor : S} {x g h : DenseMatrix S}

/-- A gradient that does not fit the point is refused. -/
theorem outcome_of_gradient_shape (hg : g.shape ≠ (x.rows, 1)) :
    outcome factor x g h = .error (.answerShape .gradient g.shape (x.rows, 1)) := by
  rw [outcome, if_pos hg]

/-- A Hessian that does not fit the point is refused. -/
theorem outcome_of_hessian_shape (hg : g.shape = (x.rows, 1)) (hh : h.shape ≠ (x.rows, x.rows)) :
    outcome factor x g h = .error (.answerShape .hessian h.shape (x.rows, x.rows)) := by
  rw [outcome, if_neg (not_not_intro hg), if_pos hh]

/-- Derivatives that fit but are not finite end the step. -/
theorem outcome_of_not_finite (hg : g.shape = (x.rows, 1)) (hh : h.shape = (x.rows, x.rows))
    (hf : (g.isFinite && h.isFinite) = false) : outcome factor x g h = .ok .nonFinite := by
  rw [outcome, if_neg (not_not_intro hg), if_neg (not_not_intro hh), hf]
  rfl

/-- With finite derivatives that fit, the outcome is that of the Newton system and of the sum. -/
theorem outcome_of_finite (hg : g.shape = (x.rows, 1)) (hh : h.shape = (x.rows, x.rows))
    (hf : (g.isFinite && h.isFinite) = true) :
    outcome factor x g h =
      match solve (.standard factor) h g.neg with
      | .error cause => if cause.isSingular then .ok (.singular cause) else .error cause
      | .ok way =>
        match x.add way with
        | .error cause => .error cause
        | .ok point => .ok (if point.isFinite then .moved point way else .overflow) := by
  rw [outcome, if_neg (not_not_intro hg), if_neg (not_not_intro hh), hf]
  rfl

/-- Whatever the outcome, gradient and Hessian fit the point. -/
theorem shapes_of_outcome_eq_ok {o : StepOutcome S} (ho : outcome factor x g h = .ok o) :
    g.shape = (x.rows, 1) ∧ h.shape = (x.rows, x.rows) := by
  by_cases hg : g.shape = (x.rows, 1)
  · by_cases hh : h.shape = (x.rows, x.rows)
    · exact ⟨hg, hh⟩
    · rw [outcome_of_hessian_shape hg hh] at ho
      cases ho
  · rw [outcome_of_gradient_shape hg] at ho
    cases ho

/-- **When a step moves.** The outcome is a move exactly if gradient and Hessian fit the point and
are finite, the Newton system has the solution `way`, and the sum of point and solution is
finite. -/
theorem outcome_eq_moved_iff {point way : DenseMatrix S} :
    outcome factor x g h = .ok (.moved point way) ↔
      g.shape = (x.rows, 1) ∧ h.shape = (x.rows, x.rows) ∧ g.isFinite = true ∧ h.isFinite = true ∧
        solve (.standard factor) h g.neg = .ok way ∧ x.add way = .ok point ∧
          point.isFinite = true := by
  constructor
  · intro hm
    by_cases hg : g.shape = (x.rows, 1)
    · by_cases hh : h.shape = (x.rows, x.rows)
      · -- shapes are settled; what is left depends on the values
        cases hf : g.isFinite && h.isFinite with
        | false =>
          rw [outcome_of_not_finite hg hh hf] at hm
          cases hm
        | true =>
          obtain ⟨hgf, hhf⟩ := Bool.and_eq_true_iff.mp hf
          rw [outcome_of_finite hg hh hf] at hm
          rcases hs : solve (.standard factor) h g.neg with cause | solution
          · -- a refused system is an outcome or a fault, but no move
            rw [hs] at hm
            dsimp only at hm
            split at hm <;> cases hm
          · rw [hs] at hm
            dsimp only at hm
            rcases ha : x.add solution with cause | sum
            · rw [ha] at hm
              cases hm
            · rw [ha] at hm
              have hsum := Except.ok.inj hm
              split at hsum
              · next hp =>
                obtain ⟨rfl, rfl⟩ := StepOutcome.moved.inj hsum
                exact ⟨hg, hh, hgf, hhf, rfl, ha, hp⟩
              · cases hsum
      · rw [outcome_of_hessian_shape hg hh] at hm
        cases hm
    · rw [outcome_of_gradient_shape hg] at hm
      cases hm
  · rintro ⟨hg, hh, hgf, hhf, hs, ha, hp⟩
    rw [outcome_of_finite hg hh (by rw [hgf, hhf]; rfl), hs]
    dsimp only
    rw [ha]
    dsimp only
    rw [if_pos hp]

end Outcome

/-! ## (3) The ends of a step -/

/-- Carrying out an outcome returns its status and never fails. -/
theorem conclude_apply (r : Ref) (x : DenseMatrix S) (o : StepOutcome S) (w : World S E) :
    conclude r x o w = (.ok o.status, o.carryOut r x w) := by
  cases o <;> rfl

/-- **How a step may end**: the value and the world that come of a step from the world `w`. -/
inductive Ending (df ddf : Evaluator S E) (w : World S E) :
    Value → Except Fault Status × World S E → Prop
  /-- The point is no matrix. -/
  | pointKind (d : Datum) : Ending df ddf w (.plain d) (.error (.pointKind d.kindName), w)
  /-- The point is no column vector. -/
  | pointShape {r : Ref} (hx : (w.store.get r).isVector = false) :
      Ending df ddf w (.matrix r) (.error (.pointShape (w.store.get r).shape), w)
  /-- The gradient is refused; the Hessian is not asked for. -/
  | gradientRefused {r : Ref} {cause : Fault} {w₁ : World S E}
      (hx : (w.store.get r).isVector = true)
      (hg : evaluate .gradient df (.matrix r) w = (.error cause, w₁)) :
      Ending df ddf w (.matrix r) (.error cause, w₁)
  /-- The Hessian is refused. -/
  | hessianRefused {r g : Ref} {cause : Fault} {w₁ w₂ : World S E}
      (hx : (w.store.get r).isVector = true)
      (hg : df (.matrix r) w = (.ok (.matrix g), w₁))
      (hh : evaluate .hessian ddf (.matrix r) w₁ = (.error cause, w₂)) :
      Ending df ddf w (.matrix r) (.error cause, w₂)
  /-- Point, gradient and Hessian do not fit together. -/
  | refused {r g h : Ref} {cause : Fault} {w₁ w₂ : World S E}
      (hx : (w.store.get r).isVector = true)
      (hg : df (.matrix r) w = (.ok (.matrix g), w₁))
      (hh : ddf (.matrix r) w₁ = (.ok (.matrix h), w₂))
      (ho : outcome w₂.settings.factor (w₂.store.get r) (w₂.store.get g) (w₂.store.get h) =
        .error cause) :
      Ending df ddf w (.matrix r) (.error cause, w₂)
  /-- The step has an outcome, which is carried out. -/
  | concluded {r g h : Ref} {o : StepOutcome S} {w₁ w₂ : World S E}
      (hx : (w.store.get r).isVector = true)
      (hg : df (.matrix r) w = (.ok (.matrix g), w₁))
      (hh : ddf (.matrix r) w₁ = (.ok (.matrix h), w₂))
      (ho : outcome w₂.settings.factor (w₂.store.get r) (w₂.store.get g) (w₂.store.get h) =
        .ok o) :
      Ending df ddf w (.matrix r) (.ok o.status, o.carryOut r (w₂.store.get r) w₂)

/-- The step on a matrix, with its effects written out in their order. -/
theorem step_matrix (df ddf : Evaluator S E) (r : Ref) (w : World S E) :
    step df ddf (.matrix r) w =
      if (w.store.get r).isVector then
        match evaluate .gradient df (.matrix r) w with
        | (.error cause, w₁) => (.error cause, w₁)
        | (.ok g, w₁) =>
          match evaluate .hessian ddf (.matrix r) w₁ with
          | (.error cause, w₂) => (.error cause, w₂)
          | (.ok h, w₂) =>
            match outcome w₂.settings.factor (w₂.store.get r) (w₂.store.get g)
                (w₂.store.get h) with
            | .error cause => (.error cause, w₂)
            | .ok o => (.ok o.status, o.carryOut r (w₂.store.get r) w₂)
      else (.error (.pointShape (w.store.get r).shape), w) := by
  by_cases hx : (w.store.get r).isVector = true
  · rw [if_pos hx]
    simp only [step, Action.bind_apply, Action.read, hx]
    rw [if_neg (show ¬ (!true) = true from Bool.not_eq_true _ |>.mpr rfl)]
    rcases hg : evaluate .gradient df (.matrix r) w with ⟨cause | g, w₁⟩
    · rw [Action.bind_of_error hg]
    · rw [Action.bind_of_ok hg]
      dsimp only
      rcases hh : evaluate .hessian ddf (.matrix r) w₁ with ⟨cause | h, w₂⟩
      · rw [Action.bind_of_error hh]
      · rw [Action.bind_of_ok hh]
        dsimp only
        rw [Action.bind_of_ok (show Action.look w₂ = (.ok w₂, w₂) from rfl)]
        rcases ho : outcome w₂.settings.factor (w₂.store.get r) (w₂.store.get g)
            (w₂.store.get h) with cause | o
        · rfl
        · exact conclude_apply r (w₂.store.get r) o w₂
  · rw [if_neg hx]
    rw [Bool.not_eq_true] at hx
    simp only [step, Action.bind_apply, Action.read, hx]
    rfl

/-- **Every step ends in one of these ways.** -/
theorem step_ending (df ddf : Evaluator S E) (x : Value) (w : World S E) :
    Ending df ddf w x (step df ddf x w) := by
  cases x with
  | plain d => exact .pointKind d
  | matrix r =>
    rw [step_matrix]
    by_cases hx : (w.store.get r).isVector = true
    · rw [if_pos hx]
      rcases hg : evaluate .gradient df (.matrix r) w with ⟨cause | g, w₁⟩
      · exact .gradientRefused hx hg
      · dsimp only
        rcases hh : evaluate .hessian ddf (.matrix r) w₁ with ⟨cause | h, w₂⟩
        · exact .hessianRefused hx (evaluate_eq_ok_iff.mp hg) hh
        · dsimp only
          rcases ho : outcome w₂.settings.factor (w₂.store.get r) (w₂.store.get g)
              (w₂.store.get h) with cause | o
          · exact .refused hx (evaluate_eq_ok_iff.mp hg) (evaluate_eq_ok_iff.mp hh) ho
          · exact .concluded hx (evaluate_eq_ok_iff.mp hg) (evaluate_eq_ok_iff.mp hh) ho
    · rw [if_neg hx]
      exact .pointShape (Bool.not_eq_true _ |>.mp hx)

/-- What a step that returns a status did: it had an outcome with that status and carried it out. -/
theorem step_eq_ok {df ddf : Evaluator S E} {x : Value} {w w' : World S E} {status : Status}
    (hstep : step df ddf x w = (.ok status, w')) :
    ∃ r g h o w₁ w₂, x = .matrix r ∧ (w.store.get r).isVector = true ∧
      df x w = (.ok (.matrix g), w₁) ∧ ddf x w₁ = (.ok (.matrix h), w₂) ∧
      outcome w₂.settings.factor (w₂.store.get r) (w₂.store.get g) (w₂.store.get h) = .ok o ∧
      o.status = status ∧ w' = o.carryOut r (w₂.store.get r) w₂ := by
  have hend := step_ending df ddf x w
  rw [hstep] at hend
  cases hend with
  | concluded hx hg hh ho => exact ⟨_, _, _, _, _, _, rfl, hx, hg, hh, ho, rfl, rfl⟩

/-- A step on a column vector whose evaluators answer with matrices comes to the outcome at
these. -/
theorem step_of_answers {df ddf : Evaluator S E} {w w₁ w₂ : World S E} {r g h : Ref}
    (hx : (w.store.get r).isVector = true) (hg : df (.matrix r) w = (.ok (.matrix g), w₁))
    (hh : ddf (.matrix r) w₁ = (.ok (.matrix h), w₂)) :
    step df ddf (.matrix r) w =
      match outcome w₂.settings.factor (w₂.store.get r) (w₂.store.get g) (w₂.store.get h) with
      | .error cause => (.error cause, w₂)
      | .ok o => (.ok o.status, o.carryOut r (w₂.store.get r) w₂) := by
  rw [step_matrix, if_pos hx, evaluate_eq_ok_iff.mpr hg]
  dsimp only
  rw [evaluate_eq_ok_iff.mpr hh]

/-- Such a step carries its outcome out if it has one. -/
theorem step_of_outcome {df ddf : Evaluator S E} {w w₁ w₂ : World S E} {r g h : Ref}
    {o : StepOutcome S} (hx : (w.store.get r).isVector = true)
    (hg : df (.matrix r) w = (.ok (.matrix g), w₁))
    (hh : ddf (.matrix r) w₁ = (.ok (.matrix h), w₂))
    (ho : outcome w₂.settings.factor (w₂.store.get r) (w₂.store.get g) (w₂.store.get h) = .ok o) :
    step df ddf (.matrix r) w = (.ok o.status, o.carryOut r (w₂.store.get r) w₂) := by
  rw [step_of_answers hx hg hh, ho]

/-! ## (4) What a step leaves alone -/

/-- A step that does not succeed touches nothing that its evaluators leave alone. -/
theorem held_step_of_ne_success {df ddf : Evaluator S E} {x y : Value} {w : World S E}
    {m : DenseMatrix S} (hdf : (df x).Leaves y) (hddf : (ddf x).Leaves y)
    (hm : w.held y = some m) (hs : (step df ddf x w).1 ≠ .ok .success) :
    (step df ddf x w).2.held y = some m := by
  have hend := step_ending df ddf x w
  generalize step df ddf x w = out at hend hs ⊢
  cases hend with
  | pointKind d => exact hm
  | pointShape hx => exact hm
  | gradientRefused hx hg => exact (leaves_evaluate hdf).held_of_eq hg hm
  | hessianRefused hx hg hh =>
    exact (leaves_evaluate hddf).held_of_eq hh (hdf.held_of_eq hg hm)
  | refused hx hg hh ho => exact hddf.held_of_eq hh (hdf.held_of_eq hg hm)
  | @concluded r g h o w₁ w₂ hx hg hh ho =>
    -- the evaluators left `y` alone, and only a move would overwrite it
    have hw₂ : w₂.held y = some m := hddf.held_of_eq hh (hdf.held_of_eq hg hm)
    cases y with
    | matrix q =>
      have ho' : o.status ≠ .success := fun h => hs (congrArg Except.ok h)
      rwa [World.held_matrix, StepOutcome.carryOut_store, StepOutcome.settle_of_ne_success ho']
    | plain d => exact hw₂

/-- After a step that returns a status its point holds a matrix: a new one only if it succeeded. -/
theorem held_of_step_eq_ok {df ddf : Evaluator S E} {x : Value} {w w' : World S E} {status : Status}
    {m : DenseMatrix S} (hdf : (df x).Leaves x) (hddf : (ddf x).Leaves x) (hm : w.held x = some m)
    (hstep : step df ddf x w = (.ok status, w')) :
    ∃ m', w'.held x = some m' ∧ (status ≠ .success → m' = m) := by
  by_cases hs : status = .success
  · obtain ⟨r, g, h, o, w₁, w₂, rfl, -, hg, hh, -, ho, rfl⟩ := step_eq_ok hstep
    obtain ⟨point, way, rfl⟩ := StepOutcome.status_eq_success_iff.mp (ho.trans hs)
    have hw₂ : w₂.held (.matrix r) = some m := hddf.held_of_eq hh (hdf.held_of_eq hg hm)
    have hnew : ((StepOutcome.moved point way).settle r w₂.store).get? r = some point :=
      StepOutcome.get?_settle_moved (Store.lt_size_of_get? hw₂)
    exact ⟨point, hnew, fun hne => absurd hs hne⟩
  · have hw' := held_step_of_ne_success hdf hddf hm
      (by rw [hstep]; exact fun h => hs (Except.ok.inj h))
    rw [hstep] at hw'
    exact ⟨m, hw', fun _ => rfl⟩

/-- However a step ends, it touches no matrix but its point's. -/
theorem leaves_step {df ddf : Evaluator S E} {r q : Ref} (hne : q ≠ r)
    (hdf : (df (.matrix r)).Leaves (.matrix q)) (hddf : (ddf (.matrix r)).Leaves (.matrix q)) :
    (step df ddf (.matrix r)).Leaves (.matrix q) := by
  intro w m hm
  by_cases hs : (step df ddf (.matrix r) w).1 = .ok .success
  · obtain ⟨_, g, h, o, w₁, w₂, hr, -, hg, hh, -, -, hw⟩ :=
      step_eq_ok (show step df ddf (.matrix r) w = (.ok .success, (step df ddf (.matrix r) w).2)
        from Prod.ext hs rfl)
    obtain rfl := Value.matrix.inj hr
    rw [hw, World.held_matrix, StepOutcome.carryOut_store, StepOutcome.get?_settle_of_ne o hne]
    exact hddf.held_of_eq hh (hdf.held_of_eq hg hm)
  · exact held_step_of_ne_success hdf hddf hm hs

end Newton

end NewtonRaphson
