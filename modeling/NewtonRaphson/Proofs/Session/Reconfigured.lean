import NewtonRaphson.Proofs.Differences.SideBySide
import NewtonRaphson.Proofs.Session.Effect

/-! # The configured precision and existing matrices

The precision of the settings is for matrices that are built of plain data. A matrix that is there
has a precision of its own, and so has all that is computed from it: a command on existing matrices
does the same whatever the configured precision is.

* **`World.withPrecision p w`** — the world `w` with another precision configured.
* **`Action.IgnoresPrecision`** — an action does the same in both worlds, and leaves worlds that
  differ as they did.
* **`Command.onMatrices`** — the commands that only work with matrices that exist.
* **`Session.ignoresPrecision_run`** — all of them ignore the configured precision. -/

namespace NewtonRaphson

variable {S E α β : Type}

/-- A world with another precision **configured**. -/
def World.withPrecision (p : Precision) (w : World S E) : World S E :=
  { w with settings.precision := p }

/-- Two worlds are **twins** if the second one is the first with another precision configured. -/
def World.Twins (p : Precision) (w v : World S E) : Prop := v = w.withPrecision p

namespace Action

/-! ## (1) Actions that ignore the configured precision -/

/-- An action **ignores** the configured precision if it comes to the same in twins. -/
def IgnoresPrecision (a : Action S E α) : Prop := ∀ p, Same (World.Twins p) a a

/-- Such an action returns the same, and leaves the same but for the precision. -/
theorem ignoresPrecision_iff {a : Action S E α} :
    a.IgnoresPrecision ↔ ∀ p w, a (w.withPrecision p) = ((a w).1, (a w).2.withPrecision p) := by
  constructor
  · intro h p w
    obtain ⟨hsame, htwins⟩ := agreement_eq_iff.mp (h p w (w.withPrecision p) rfl)
    exact Prod.ext hsame.symm htwins
  · rintro h p w _ rfl
    rw [agreement_eq_iff, h p w]
    exact ⟨rfl, rfl⟩

theorem ignoresPrecision_pure (v : α) : (pure v : Action S E α).IgnoresPrecision :=
  fun _ => same_pure v

theorem ignoresPrecision_fail (cause : Fault) : (fail cause : Action S E α).IgnoresPrecision :=
  fun _ => same_fail cause

theorem ignoresPrecision_ofExcept (x : Except Fault α) :
    (ofExcept x : Action S E α).IgnoresPrecision :=
  fun _ => same_ofExcept x

theorem ignoresPrecision_read [Scalar S] (r : Ref) : (read r : Action S E _).IgnoresPrecision :=
  ignoresPrecision_iff.mpr fun _ _ => rfl

theorem ignoresPrecision_write (r : Ref) (m : DenseMatrix S) :
    (write r m : Action S E Unit).IgnoresPrecision :=
  ignoresPrecision_iff.mpr fun _ _ => rfl

theorem ignoresPrecision_add (m : DenseMatrix S) : (add m : Action S E Ref).IgnoresPrecision :=
  ignoresPrecision_iff.mpr fun _ _ => rfl

theorem ignoresPrecision_onCaller (f : E → E) : (onCaller f : Action S E Unit).IgnoresPrecision :=
  ignoresPrecision_iff.mpr fun _ _ => rfl

/-- Looking at the world ignores the precision if only a part is used that is not the precision. -/
theorem IgnoresPrecision.look_bind {f : World S E → Action S E β} (h : ∀ w, (f w).IgnoresPrecision)
    (hf : ∀ p w, f (w.withPrecision p) = f w) : (look >>= f).IgnoresPrecision := by
  rintro p w _ rfl
  show Agreement _ _ (f w w) (f (w.withPrecision p) (w.withPrecision p))
  rw [hf p w]
  exact h w p w _ rfl

theorem IgnoresPrecision.bind {a : Action S E α} {f : α → Action S E β} (ha : a.IgnoresPrecision)
    (hf : ∀ v, (f v).IgnoresPrecision) : (a >>= f).IgnoresPrecision :=
  fun p => (ha p).bind fun v => hf v p

end Action

open NewtonRaphson.Action
  (ignoresPrecision_pure ignoresPrecision_fail ignoresPrecision_ofExcept ignoresPrecision_read
    ignoresPrecision_write ignoresPrecision_add ignoresPrecision_onCaller)

/-! ## (2) Operands -/

theorem ignoresPrecision_refOf (name : String) : (refOf name).IgnoresPrecision :=
  .look_bind (fun w => ignoresPrecision_ofExcept (w.caller.lookup name)) fun _ _ => rfl

theorem ignoresPrecision_matrixOf (name : String) : (matrixOf name).IgnoresPrecision :=
  (ignoresPrecision_refOf name).bind ignoresPrecision_read

/-- The objective of an expression ignores the configured precision: it computes in doubles. -/
theorem Recipe.ignoresPrecision_objectiveOf (place : List Nat) (e : Expression) (r : Ref) :
    (objectiveOf place e r).IgnoresPrecision := by
  have hcount : (countCall place).IgnoresPrecision := Action.ignoresPrecision_iff.mpr fun _ _ => rfl
  have hcoordinates : (coordinatesOf (.matrix r)).IgnoresPrecision :=
    (ignoresPrecision_read r).bind fun m => ignoresPrecision_pure m.getEntry
  refine hcount.bind fun _ => hcoordinates.bind fun coordinates => ?_
  exact ignoresPrecision_ofExcept (e.eval coordinates)

section Derivatives

variable (objective : Expression) (width : Except Fault (Width Float)) (place : List Nat) (r : Ref)

/-- So do its values at new points. -/
theorem Recipe.ignoresPrecision_valueAt (p : Precision) (n : Nat) (hn : 0 < n)
    (x : Vector Float n) :
    (Differences.valueAt (objectiveOf place objective) p hn x).IgnoresPrecision :=
  (ignoresPrecision_add _).bind (ignoresPrecision_objectiveOf place objective)

/-- So do gradients by differences, and Hessians. -/
theorem Recipe.ignoresPrecision_gradient :
    (Differences.gradient (objectiveOf place objective) width (.matrix r)).IgnoresPrecision :=
  fun p => Differences.same_gradient
    (fun q n hn x => ignoresPrecision_valueAt objective place q n hn x p)
    (ignoresPrecision_read r p) width

theorem Recipe.ignoresPrecision_hessian :
    (Differences.hessian (objectiveOf place objective) width (.matrix r)).IgnoresPrecision :=
  fun p => Differences.same_hessian
    (fun q n hn x => ignoresPrecision_valueAt objective place q n hn x p)
    (ignoresPrecision_read r p) width

end Derivatives

/-- Whether a command only works with matrices that exist: it builds none of plain data, and neither
reads nor sets the settings but for the singularity factor. -/
def Command.onMatrices : Command → Bool
  | display _ | copy _ _ | negate _ _ | transpose _ _ | .alias _ _ | combine _ _ _ _ | update _ _ _
  | getEntry _ _
  | setEntry _ _ _ | walk _ | describe _ | compactText _ | fullText _ | hash _ | norm _ | equal _ _
  | close _ _ _ _
  | assign _ _ | solve _ _ _ _ | isSingular _ _ | conditioning _ | gradient _ _ _ _
  | hessian _ _ _ _ => true
  | _ => false

namespace Session

theorem ignoresPrecision_operandOf (source : Source) : (operandOf source).IgnoresPrecision := by
  cases source with
  | register name =>
    exact (ignoresPrecision_matrixOf name).bind fun m => ignoresPrecision_pure (Operand.matrix m)
  | plain d => exact ignoresPrecision_pure (Operand.plain d)

/-- The singularity factor is a setting too, but not the precision. -/
theorem ignoresPrecision_factor : factor.IgnoresPrecision :=
  .look_bind (fun w => ignoresPrecision_pure w.settings.factor) fun _ _ => rfl

theorem ignoresPrecision_bindTarget (target : Option String) (r : Ref) :
    (bindTarget target r).IgnoresPrecision := by
  cases target with
  | some name => exact ignoresPrecision_onCaller fun c => Caller.bind c name r
  | none => exact ignoresPrecision_pure ()

theorem ignoresPrecision_deliver (target : Option String) (m : DenseMatrix Float) :
    (deliver target m).IgnoresPrecision := by
  refine (ignoresPrecision_add m).bind fun r => ?_
  exact (ignoresPrecision_bindTarget target r).bind fun _ =>
    ignoresPrecision_pure (Outcome.matrix m)

theorem ignoresPrecision_overwrite (target : String)
    (f : DenseMatrix Float → Except Fault (DenseMatrix Float)) :
    (overwrite target f).IgnoresPrecision := by
  refine (ignoresPrecision_refOf target).bind fun r => (ignoresPrecision_read r).bind fun m => ?_
  refine (ignoresPrecision_ofExcept (f m)).bind fun n => ?_
  exact (ignoresPrecision_write r n).bind fun _ => ignoresPrecision_pure (Outcome.matrix n)

/-! ## (3) Commands -/

/-- Differences ignore the configured precision if they do for every objective that does. -/
theorem ignoresPrecision_differences {target : Option String} {point : String}
    {objective : Expression}
    {f : Objective Float Caller → Value → SessionAction (DenseMatrix Float)}
    (hf : ∀ r, (f (Recipe.objectiveOf objectivePlace objective) (.matrix r)).IgnoresPrecision) :
    (differences target point objective f).IgnoresPrecision := by
  refine (ignoresPrecision_onCaller _).bind fun _ => (ignoresPrecision_refOf point).bind fun r => ?_
  refine (hf r).bind fun m => (ignoresPrecision_add m).bind fun q => ?_
  refine (ignoresPrecision_bindTarget target q).bind fun _ => ?_
  exact .look_bind (fun w => ignoresPrecision_pure _) fun _ _ => rfl

variable {c : Command}

/-- **A command on existing matrices ignores the configured precision**: its outcome is the same,
and so is all it does. -/
theorem ignoresPrecision_run (fuel : Nat) (hc : c.onMatrices = true) :
    (run fuel c).IgnoresPrecision := by
  cases c with
  | display source | walk source | describe source | compactText source | fullText source
  | norm source =>
    rw [run]
    exact (ignoresPrecision_matrixOf source).bind fun m => ignoresPrecision_pure _
  | copy target source | negate target source | transpose target source =>
    rw [run]
    exact (ignoresPrecision_matrixOf source).bind fun m => ignoresPrecision_deliver target _
  | «alias» target source =>
    rw [run]
    refine (ignoresPrecision_refOf source).bind fun r => ?_
    refine (ignoresPrecision_bindTarget target r).bind fun _ => ?_
    exact (ignoresPrecision_read r).bind fun m => ignoresPrecision_pure _
  | combine operator target left right =>
    rw [run]
    refine (ignoresPrecision_operandOf left).bind fun a =>
      (ignoresPrecision_operandOf right).bind fun b => ?_
    exact (ignoresPrecision_ofExcept _).bind fun m => ignoresPrecision_deliver target m
  | update operator target right =>
    rw [run]
    refine (ignoresPrecision_refOf target).bind fun r =>
      (ignoresPrecision_operandOf right).bind fun b => ?_
    refine (ignoresPrecision_read r).bind fun a => (ignoresPrecision_ofExcept _).bind fun m => ?_
    split
    · exact (ignoresPrecision_write r m).bind fun _ => ignoresPrecision_pure _
    · exact ignoresPrecision_deliver _ m
  | getEntry source key =>
    rw [run]
    refine (ignoresPrecision_matrixOf source).bind fun m => ?_
    exact (ignoresPrecision_ofExcept _).bind fun x => ignoresPrecision_pure _
  | setEntry target key value =>
    rw [run]
    exact ignoresPrecision_overwrite target _
  | hash source =>
    rw [run]
    exact (ignoresPrecision_refOf source).bind fun r => ignoresPrecision_fail _
  | equal left right =>
    rw [run]
    refine (ignoresPrecision_operandOf left).bind fun a => ?_
    exact (ignoresPrecision_operandOf right).bind fun b => ignoresPrecision_pure _
  | close left right atol rtol =>
    rw [run]
    refine (ignoresPrecision_matrixOf left).bind fun a =>
      (ignoresPrecision_operandOf right).bind fun b => ?_
    exact (ignoresPrecision_ofExcept _).bind fun truth => ignoresPrecision_pure _
  | assign target right =>
    rw [run]
    exact (ignoresPrecision_operandOf right).bind fun b => ignoresPrecision_overwrite target _
  | solve target matrix side threshold =>
    rw [run]
    -- a threshold of the settings has their factor, and the precision of the matrix
    refine (ignoresPrecision_matrixOf matrix).bind fun a =>
      (ignoresPrecision_matrixOf side).bind fun b => ?_
    refine ignoresPrecision_factor.bind fun x => ?_
    exact (ignoresPrecision_ofExcept _).bind fun m => ignoresPrecision_deliver target m
  | isSingular source threshold =>
    rw [run]
    refine (ignoresPrecision_matrixOf source).bind fun m => ignoresPrecision_factor.bind fun x => ?_
    exact (ignoresPrecision_ofExcept _).bind fun truth => ignoresPrecision_pure _
  | conditioning source =>
    rw [run]
    refine (ignoresPrecision_matrixOf source).bind fun m => ?_
    refine (ignoresPrecision_ofExcept _).bind fun condition => ?_
    cases condition with
    | unbounded => exact ignoresPrecision_pure _
    | ratio x => exact ignoresPrecision_pure _
  | gradient target point objective width =>
    rw [run]
    exact ignoresPrecision_differences (Recipe.ignoresPrecision_gradient objective _ _)
  | hessian target point objective width =>
    rw [run]
    exact ignoresPrecision_differences (Recipe.ignoresPrecision_hessian objective _ _)
  | _ => cases hc

end Session

end NewtonRaphson
