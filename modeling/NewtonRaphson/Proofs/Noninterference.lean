import NewtonRaphson.Proofs.Iteration.Resumption
import NewtonRaphson.Proofs.Iteration.SideBySide
import NewtonRaphson.Proofs.Newton.Decision
import NewtonRaphson.Proofs.Session.Reconfigured

/-! # Observation changes nothing

What is computed does not depend on who watches: neither on the loggers and what they write, nor on
the history and the callback of an iteration. Nor does it depend on the configured precision, which
is for matrices that are built of plain data; all others keep the one of the matrices that they are
computed from.

* **`observation_changes_nothing`** — steps, iterations, differences, and commands on existing
  matrices. -/

namespace NewtonRaphson

open Iteration (unit unitWorld pointGradient silent)

/-- **Results depend neither on observation nor on the configured precision.** Take two worlds with
one singularity factor, which may differ in their journals, in the configured precision and in the
state of the caller, and in each a point that holds the same. Take pure evaluators whose constants,
none of which is a point, are in both worlds. Then two steps end with the same status or with the
same fault, at points that hold the same; and so do two iterations to one tolerance and bound, which
may differ in whether the history is kept, and in their callbacks as long as these modify nothing:
status, number of steps, norm of the gradient, convergence and reason are the same. Gradient and
Hessian of a pure objective by differences are the same in both worlds, or refused for the same
cause. And a command on existing matrices has the same outcome with another precision configured,
and does the same. -/
theorem observation_changes_nothing {S E : Type} [SingularValues S] :
    (∀ (known : Constants S) (df ddf : Evaluator S E), df.Pure known → ddf.Pure known →
      ∀ (x y : Value) (f : S) (w v : World S E),
        known.Apart x → known.Apart y → w.Paired known x y f f v →
        ((Newton.step df ddf x w).1 = (Newton.step df ddf y v).1 ∧
          (Newton.step df ddf x w).2.held x = (Newton.step df ddf y v).2.held y) ∧
        ∀ (fuel : Nat) (tolerance : S) (stepBound : Option Int) (keep keep' : Bool)
          (callback callback' : Option (Callback S E)), (∀ report ∈ callback, report.Passive) →
          (∀ report ∈ callback', report.Passive) →
          (Iteration.run fuel df ddf ⟨tolerance, stepBound, keep⟩ callback x w).1.map
            (Option.map Run.answer) =
            (Iteration.run fuel df ddf ⟨tolerance, stepBound, keep'⟩ callback' y v).1.map
              (Option.map Run.answer) ∧
          (Iteration.run fuel df ddf ⟨tolerance, stepBound, keep⟩ callback x w).2.held x =
            (Iteration.run fuel df ddf ⟨tolerance, stepBound, keep'⟩ callback' y v).2.held y) ∧
    (∀ (known : Constants S) (f : Objective S E), f.Pure known → ∀ (x y : Value) (w v : World S E),
      w.Holds known → v.Holds known → w.Alike v x y → ∀ width : Except Fault (Width S),
        (Differences.gradient f width x w).1 = (Differences.gradient f width y v).1 ∧
        (Differences.hessian f width x w).1 = (Differences.hessian f width y v).1) ∧
    (∀ (fuel : Nat) (c : Command), c.onMatrices = true → ∀ (p : Precision) (w : World Float Caller),
      Session.run fuel c (w.withPrecision p) =
        ((Session.run fuel c w).1, (Session.run fuel c w).2.withPrecision p)) := by
  refine ⟨?_, ?_, ?_⟩
  · intro known df ddf hdf hddf x y f w v hx hy h
    refine ⟨?_, ?_⟩
    · obtain ⟨hsame, hpaired⟩ := Action.agreement_eq_iff.mp (Newton.agree_step hdf hddf hx hy w v h)
      exact ⟨hsame, hpaired.alike.held_eq⟩
    · intro fuel tolerance stepBound keep keep' callback callback' hcallback hcallback'
      have hagree := Iteration.agree_run hcallback hcallback' hdf hddf hx hy tolerance stepBound
        keep keep' fuel w v h
      generalize Iteration.run fuel df ddf _ callback x w = out at hagree ⊢
      generalize Iteration.run fuel df ddf _ callback' y v = out' at hagree ⊢
      cases hagree with
      | refused hpaired => exact ⟨rfl, hpaired.alike.held_eq⟩
      | returned hpaired hanswer => exact ⟨congrArg Except.ok hanswer, hpaired.alike.held_eq⟩
  · intro known f hf x y w v hw hv h width
    exact ⟨Differences.fst_gradient_of_pure hf width hw hv h,
      Differences.fst_hessian_of_pure hf width hw hv h⟩
  · intro fuel c hc
    exact Action.ignoresPrecision_iff.mp (Session.ignoresPrecision_run fuel hc)

/-! ### A run that is watched and one that is not -/

/-- The matrix of the Hessian is kept in the store, at the reference one. -/
def storedHessian : Constants Float := fun r => if r = 1 then some unit else none

/-- The world of a point at one that nobody watches. -/
def unwatchedWorld : World Float Unit := ⟨⟨#[unit, unit]⟩, .initial, .initial, ()⟩

/-- The journal with a single logger, which writes all that steps report. -/
def openJournal : Journal Float :=
  ⟨Level.debug, "%(message)s", "stdout",
    [⟨Journal.stepLogger, Level.debug, [⟨Level.debug, "%(message)s", "stdout"⟩], false⟩],
    [Journal.stepLogger], []⟩

/-- The world of the same point where steps are written, and single precision is configured. -/
def watchedWorld : World Float Unit :=
  ⟨⟨#[unit.neg, unit, unit]⟩, ⟨.single, Scalar.one⟩, openJournal, ()⟩

/-- The world of a session in which a name stands for a matrix. -/
def namedWorld : World Float Caller := ⟨⟨#[unit]⟩, .initial, .initial, Caller.initial.bind "x" 0⟩

/-- A step from one leads to zero in both worlds, and an iteration, watched or not, converges after
one of them; the norm of the point has the same differences in both; and a matrix is added to itself
in double precision while single precision is configured. -/
theorem observation_changes_nothing_of_watchedWorld :
    (Newton.step pointGradient (Newton.always 1) (.matrix 2) watchedWorld).1 = .ok .success ∧
      (∃ result,
        (Iteration.run 2 pointGradient (Newton.always 1) ⟨0.5, none, false⟩ none (.matrix 0)
          unwatchedWorld).1 = .ok (some result) ∧ result.final.steps = 1 ∧
        (Iteration.run 2 pointGradient (Newton.always 1) ⟨0.5, none, true⟩ (some silent) (.matrix 2)
          watchedWorld).1.map (Option.map Run.answer) = .ok (some result.answer)) ∧
      (Differences.gradient (fun r => DenseMatrix.norm <$> Action.read r)
        (Width.ofScalar 0.5) (.matrix 0)
          unwatchedWorld).1 =
        (Differences.gradient (fun r => DenseMatrix.norm <$> Action.read r)
          (Width.ofScalar 0.5) (.matrix 2) watchedWorld).1 ∧
      ∃ m, (Session.run 0 (.combine .add none (.register "x") (.register "x"))
        (namedWorld.withPrecision .single)).1 = .ok (.matrix m) ∧ m.precision = .double := by
  obtain ⟨hruns, hdifferences, hcommands⟩ := observation_changes_nothing (S := Float) (E := Unit)
  have hholds : unwatchedWorld.Holds storedHessian := by
    intro r m hm
    obtain ⟨rfl, hm⟩ := Option.ite_none_right_eq_some.mp hm
    exact hm
  have hholds' : watchedWorld.Holds storedHessian := by
    intro r m hm
    obtain ⟨rfl, hm⟩ := Option.ite_none_right_eq_some.mp hm
    exact hm
  have hapart (q : Ref) (hq : q ≠ 1) : storedHessian.Apart (.matrix q) := by
    rintro r ⟨rfl⟩
    exact if_neg hq
  have halike : unwatchedWorld.Alike watchedWorld (.matrix 0) (.matrix 2) :=
    .matrix (m := unit) rfl rfl
  have hsilent : ∀ report ∈ some silent, report.Passive := by
    rintro report ⟨rfl⟩
    exact ⟨fun _ _ _ _ => rfl, fun _ _ _ => Action.leaves_pure _, fun _ _ _ _ => rfl⟩
  obtain ⟨⟨hstep, -⟩, hrun⟩ := hruns storedHessian pointGradient (Newton.always 1)
    (Evaluator.pure_ofFunction _ _) (Evaluator.pure_constantly 1 rfl) (.matrix 0) (.matrix 2)
    Scalar.one
    unwatchedWorld watchedWorld (hapart 0 (by decide)) (hapart 2 (by decide))
    ⟨hholds, hholds', halike, rfl, rfl⟩
  have hmoved : (Newton.step pointGradient (Newton.always 1) (.matrix 0) unwatchedWorld).1 =
      .ok .success := Action.eq_ok_of_toOption (by decide +kernel)
  have hconverged :
      ((Iteration.run 2 pointGradient (Newton.always 1) ⟨0.5, none, false⟩ none (.matrix 0)
        unwatchedWorld).1.toOption.join.map fun result => result.final.steps) = some 1 := by
    decide +kernel
  obtain ⟨result, hresult, hone⟩ := Action.exists_eq_of_map_eq_some hconverged
  have hwatched := (hrun 2 0.5 none false true none (some silent) (by rintro _ ⟨⟩) hsilent).1
  rw [hresult] at hwatched
  refine ⟨hstep.symm.trans hmoved, ⟨result, congrArg Prod.fst hresult, hone, hwatched.symm⟩, ?_, ?_⟩
  · exact (hdifferences storedHessian _ (Objective.pure_ofFunction DenseMatrix.norm _)
      (.matrix 0) (.matrix 2)
      unwatchedWorld watchedWorld hholds hholds' halike (Width.ofScalar 0.5)).1
  · have hsum :=
      hcommands 0 (.combine .add none (.register "x") (.register "x")) rfl .single namedWorld
    rw [hsum]
    exact ⟨_, rfl, rfl⟩

end NewtonRaphson
