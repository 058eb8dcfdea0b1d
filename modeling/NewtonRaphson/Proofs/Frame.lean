import NewtonRaphson.Proofs.Iteration
import NewtonRaphson.Settings

/-! # Frames

A frame says which worlds may come of a world. A step and an iteration run functions of the caller
of which nothing is known; all they do besides is to write records and to overwrite the point. So a
frame in which the caller's functions stay, and which lets the point move, is not left by a step or
by an iteration.

* **`World.IsFrame R`** — `R` may relate a world to what comes of it: doing nothing, going on,
  writing records.
* **`Action.Stays R a`** — whatever world `a` starts from, the one it leaves is related to it, also
  if `a` is refused. **`Action.Yields P a`** — every value that `a` returns has the property `P`.
* **`Newton.LetsMove R x`** — overwriting the point `x` by the outcome of a step stays in the frame.
* **`Newton.stays_step`**, **`Iteration.stays_run`**, **`Iteration.stays_descend`** — steps,
  iterations and the plain loop stay in every such frame; **`Newton.step_moves_or_stays`** tells a
  step that moves its point from the others. -/

namespace NewtonRaphson

variable {S E α β : Type}

/-- A **frame**: a relation of a world to those that may come of it. -/
structure World.IsFrame (R : World S E → World S E → Prop) : Prop where
  /-- Nothing may happen. -/
  refl : ∀ w, R w w
  /-- One thing may happen after the other. -/
  trans : ∀ {u v w}, R u v → R v w → R u w
  /-- The journal may be written to. -/
  journal : ∀ w journal, R w { w with journal := journal }

namespace Action

/-- An action **stays** in a frame, however it ends. -/
def Stays (R : World S E → World S E → Prop) (a : Action S E α) : Prop := ∀ w, R w (a w).2

/-- An action **yields** values with a property. -/
def Yields (P : α → Prop) (a : Action S E α) : Prop := ∀ w v w', a w = (.ok v, w') → P v

/-! ## (1) Composed actions -/

section Composed

variable {R : World S E → World S E → Prop}

/-- What an action that stays in a frame came to is related to its start. -/
theorem Stays.of_eq {a : Action S E α} (ha : a.Stays R) {w w' : World S E} {out : Except Fault α}
    (h : a w = (out, w')) : R w w' := by
  have hw := ha w
  rwa [h] at hw

section Silent

variable (hR : World.IsFrame R)
include hR

theorem stays_pure (v : α) : (pure v : Action S E α).Stays R := hR.refl

theorem stays_fail (e : Fault) : (fail e : Action S E α).Stays R := hR.refl

theorem stays_ofExcept (x : Except Fault α) : (ofExcept x : Action S E α).Stays R := hR.refl

theorem stays_look : (look : Action S E _).Stays R := hR.refl

theorem stays_read [Scalar S] (r : Ref) : (read r : Action S E _).Stays R := hR.refl

theorem stays_resolve (choice : PrecisionChoice) :
    (resolve choice : Action S E _).Stays R := hR.refl

theorem stays_record (logger : String) (level : Int) (message : Message S) :
    (record logger level message : Action S E Unit).Stays R :=
  fun w => hR.journal w _

theorem stays_onJournal (f : Journal S → Except Fault α × Journal S) :
    (onJournal f : Action S E α).Stays R :=
  fun w => hR.journal w _

/-- One action after another stays in a frame if the second does for every value of the first that
has the property all its values have. -/
theorem Stays.bind_of_yields {a : Action S E α} {f : α → Action S E β} {P : α → Prop}
    (ha : a.Stays R) (hP : a.Yields P) (hf : ∀ v, P v → (f v).Stays R) : (a >>= f).Stays R := by
  intro w
  rcases h : a w with ⟨e | v, w₁⟩
  · rw [bind_of_error h]
    exact ha.of_eq h
  · rw [bind_of_ok h]
    exact hR.trans (ha.of_eq h) (hf v (hP w v w₁ h) w₁)

/-- One action after another stays in a frame if both do. -/
theorem Stays.bind {a : Action S E α} {f : α → Action S E β} (ha : a.Stays R)
    (hf : ∀ v, (f v).Stays R) : (a >>= f).Stays R :=
  ha.bind_of_yields hR (P := fun _ => True) (fun _ _ _ _ => True.intro) fun v _ => hf v

/-- Replacing the value of an action changes nothing else. -/
theorem Stays.map {a : Action S E α} (ha : a.Stays R) (f : α → β) : (f <$> a).Stays R := by
  rw [← bind_pure_comp]
  exact ha.bind hR fun v => stays_pure hR (f v)

end Silent

/-! ## (2) Values -/

theorem yields_ofExcept {x : Except Fault α} {P : α → Prop} (h : ∀ v, x = .ok v → P v) :
    (ofExcept x : Action S E α).Yields P := by
  intro w v w' hv
  cases hv
  exact h v rfl

end Composed

/-! ### Actions that only ask -/

/-- An action that only **asks** leaves the world as it is, however it ends. -/
def Asks (a : Action S E α) : Prop := ∀ w, (a w).2 = w

theorem asks_pure (v : α) : (pure v : Action S E α).Asks := fun _ => rfl

theorem asks_fail (e : Fault) : (fail e : Action S E α).Asks := fun _ => rfl

theorem asks_ofExcept (x : Except Fault α) : (ofExcept x : Action S E α).Asks := fun _ => rfl

theorem asks_look : (look : Action S E _).Asks := fun _ => rfl

theorem asks_read [Scalar S] (r : Ref) : (read r : Action S E _).Asks := fun _ => rfl

theorem asks_resolve (choice : PrecisionChoice) : (resolve choice : Action S E _).Asks :=
  fun _ => rfl

/-- What an action that only asks returns, it returns in the world that it was asked in. -/
theorem Asks.eq_of_eq {a : Action S E α} (ha : a.Asks) {w w' : World S E} {out : Except Fault α}
    (h : a w = (out, w')) : w' = w := by
  have hw := ha w
  rwa [h] at hw

theorem Asks.bind {a : Action S E α} {f : α → Action S E β} (ha : a.Asks) (hf : ∀ v, (f v).Asks) :
    (a >>= f).Asks := by
  intro w
  rcases h : a w with ⟨e | v, w₁⟩
  · rw [bind_of_error h]
    exact ha.eq_of_eq h
  · rw [bind_of_ok h, hf v w₁]
    exact ha.eq_of_eq h

/-- Asking stays in every frame. -/
theorem Asks.stays {a : Action S E α} (ha : a.Asks) {R : World S E → World S E → Prop}
    (hR : World.IsFrame R) : a.Stays R := by
  intro w
  rw [ha w]
  exact hR.refl w

end Action

/-! ## (3) Steps -/

namespace Newton

variable {R : World S E → World S E → Prop}

/-- Asking an evaluator stays in the frames of the evaluator. -/
theorem stays_evaluate (hR : World.IsFrame R) {f : Evaluator S E} {x : Value} (hf : (f x).Stays R)
    (which : Derivative) : (evaluate which f x).Stays R := by
  refine hf.bind hR fun v => ?_
  cases v with
  | matrix r => exact Action.stays_pure hR r
  | plain d => exact Action.stays_fail hR _

variable [SingularValues S]

/-- A frame **lets a point move**: it relates a world to the one in which the point is overwritten
by the outcome of a step from there. -/
def LetsMove (R : World S E → World S E → Prop) (x : Value) : Prop :=
  ∀ (w : World S E) (r g h : Ref) (point way : DenseMatrix S), x = .matrix r →
    outcome w.settings.factor (w.store.get r) (w.store.get g) (w.store.get h) =
      .ok (.moved point way) → R w { w with store := w.store.put r point }

section Step

variable (hR : World.IsFrame R) {df ddf : Evaluator S E} {x : Value}
include hR

/-- **A step that does not move its point** stays in the frames of its evaluators; one that does
succeeds, and overwrites the point in a world that its evaluators came to. -/
theorem step_moves_or_stays (hdf : (df x).Stays R) (hddf : (ddf x).Stays R) (w : World S E) :
    R w (step df ddf x w).2 ∨
      ∃ r g h point way w₂, x = .matrix r ∧ R w w₂ ∧
        outcome w₂.settings.factor (w₂.store.get r) (w₂.store.get g) (w₂.store.get h) =
          .ok (.moved point way) ∧
        step df ddf x w =
          (.ok .success, (StepOutcome.moved point way).carryOut r (w₂.store.get r) w₂) := by
  have hend := step_ending df ddf x w
  generalize step df ddf x w = out at hend ⊢
  cases hend with
  | pointKind d => exact .inl (hR.refl w)
  | pointShape hx => exact .inl (hR.refl w)
  | gradientRefused hx hg => exact .inl ((stays_evaluate hR hdf .gradient).of_eq hg)
  | hessianRefused hx hg hh =>
    exact .inl (hR.trans (hdf.of_eq hg) ((stays_evaluate hR hddf .hessian).of_eq hh))
  | refused hx hg hh ho => exact .inl (hR.trans (hdf.of_eq hg) (hddf.of_eq hh))
  | @concluded r g h o w₁ w₂ hx hg hh ho =>
    have hw₂ : R w w₂ := hR.trans (hdf.of_eq hg) (hddf.of_eq hh)
    -- an outcome that is no move only leaves a record
    cases o with
    | nonFinite => exact .inl (hR.trans hw₂ (hR.journal w₂ _))
    | singular cause => exact .inl (hR.trans hw₂ (hR.journal w₂ _))
    | overflow => exact .inl (hR.trans hw₂ (hR.journal w₂ _))
    | moved point way => exact .inr ⟨r, g, h, point, way, w₂, rfl, hw₂, ho, rfl⟩

/-- A step that is refused stays in the frames of its evaluators. -/
theorem rel_of_step_eq_error (hdf : (df x).Stays R) (hddf : (ddf x).Stays R) {w w' : World S E}
    {cause : Fault} (h : step df ddf x w = (.error cause, w')) : R w w' := by
  rcases step_moves_or_stays hR hdf hddf w with hw | ⟨_, _, _, _, _, _, -, -, -, hmoved⟩
  · rwa [h] at hw
  · rw [h] at hmoved
    cases hmoved

/-- **A step** stays in every frame in which its evaluators stay and that lets its point move. -/
theorem stays_step (hdf : (df x).Stays R) (hddf : (ddf x).Stays R) (hmove : LetsMove R x) :
    (step df ddf x).Stays R := by
  intro w
  rcases step_moves_or_stays hR hdf hddf w with hw | ⟨r, g, h, point, way, w₂, hx, hw₂, ho, hmoved⟩
  · exact hw
  · rw [hmoved]
    exact hR.trans hw₂ (hR.trans (hmove w₂ r g h point way hx ho) (hR.journal _ _))

end Step

end Newton

/-! ## (4) Iterations -/

namespace Iteration

variable {R : World S E → World S E → Prop} (hR : World.IsFrame R)
  {df ddf : Evaluator S E} {x : Value}
include hR

theorem stays_gradientNorm [Scalar S] (hdf : (df x).Stays R) :
    (gradientNorm df x : Action S E S).Stays R := by
  refine hdf.bind hR fun v => ?_
  cases v with
  | matrix r => exact (Action.stays_read hR r).bind hR fun m => Action.stays_pure hR m.norm
  | plain d => exact Action.stays_fail hR _

theorem stays_copyOf [Scalar S] (x : Value) : (copyOf x : Action S E (DenseMatrix S)).Stays R := by
  cases x with
  | matrix r => exact Action.stays_read hR r
  | plain d => exact Action.stays_fail hR _

theorem stays_tell {callback : Option (Callback S E)}
    (hcallback : ∀ report ∈ callback, ∀ n status, (report n x status).Stays R) (n : Nat)
    (status : Status) : (tell callback n x status).Stays R := by
  cases callback with
  | none => exact Action.stays_pure hR ()
  | some report => exact hcallback report rfl n status

variable [SingularValues S] {limits : Limits S} {callback : Option (Callback S E)}

section Run

variable (hdf : (df x).Stays R) (hddf : (ddf x).Stays R) (hmove : Newton.LetsMove R x)
variable (hcallback : ∀ report ∈ callback, ∀ n status, (report n x status).Stays R)
include hdf hddf hmove hcallback

/-- An advance stays in the frames of its parts. -/
theorem stays_advance (p : Progress S) : (advance df ddf limits callback x p).Stays R := by
  have hstep := Newton.stays_step hR hdf hddf hmove
  cases x with
  | plain d =>
    -- a step on a plain value is refused
    intro w
    have hrefused : Newton.step df ddf (.plain d) w = (.error (.pointKind d.kindName), w) := rfl
    rw [advance, Action.bind_of_error hrefused]
    exact hR.refl w
  | matrix r =>
    rw [advance_matrix]
    refine hstep.bind hR fun status => ?_
    refine (Action.stays_read hR r).bind hR fun m => ?_
    refine (stays_tell hR hcallback _ status).bind hR fun _ => ?_
    exact (stays_gradientNorm hR hdf).bind hR fun norm => Action.stays_pure hR _

/-- So does the loop, by induction on the fuel. -/
theorem stays_loop (fuel : Nat) (p : Progress S) :
    (loop df ddf limits callback x fuel p).Stays R := by
  induction fuel generalizing p with
  | zero =>
    rw [loop]
    split
    · exact Action.stays_pure hR _
    · exact Action.stays_pure hR _
  | succ fuel ih =>
    rw [loop]
    split
    · exact Action.stays_pure hR _
    · exact (stays_advance hR hdf hddf hmove hcallback p).bind hR ih

/-- **An iteration** stays in every frame in which the caller's functions stay and that lets its
point move. -/
theorem stays_run (fuel : Nat) : (run fuel df ddf limits callback x).Stays R := by
  by_cases hacc : Accepted limits
  · rw [run_of_accepted hacc]
    refine (stays_gradientNorm hR hdf).bind hR fun norm => ?_
    refine (stays_loop hR hdf hddf hmove hcallback fuel _).bind hR fun end? => ?_
    cases end? with
    | none => exact Action.stays_pure hR none
    | some q => exact Action.Stays.bind hR (fun w => hR.journal w _) fun _ => Action.stays_pure hR _
  · intro w
    rw [run_of_not_accepted hacc]
    exact hR.refl w

end Run

/-- **The plain loop** stays in every frame in which its evaluators and its observations stay. -/
theorem stays_descend (hdf : (df x).Stays R) (hddf : (ddf x).Stays R) (hmove : Newton.LetsMove R x)
    {observe : Action S E α} (hobserve : observe.Stays R) (tolerance : S) (fuel : Nat)
    (status : Status) : (descend df ddf tolerance observe x fuel status).Stays R := by
  have hstep := Newton.stays_step hR hdf hddf hmove
  induction fuel generalizing status with
  | zero =>
    rw [descend]
    split
    · exact Action.stays_pure hR _
    · refine (stays_gradientNorm hR hdf).bind hR fun norm => ?_
      split <;> exact Action.stays_pure hR _
  | succ fuel ih =>
    rw [descend]
    split
    · exact Action.stays_pure hR _
    · refine (stays_gradientNorm hR hdf).bind hR fun norm => ?_
      split
      · refine hstep.bind hR fun status => hobserve.bind hR fun seen => ?_
        exact (ih status).bind hR fun rest => Action.stays_pure hR _
      · exact Action.stays_pure hR _

end Iteration

end NewtonRaphson
