import NewtonRaphson.Proofs.Iteration.Orbit
import NewtonRaphson.Proofs.Purity

/-! # Iterations side by side

Two iterations with pure evaluators start from points that hold the same, in worlds with one
singularity factor. They may differ in all that observes them: the journals, the precision of the
settings, the state of the caller, the callbacks, and whether the history is kept. None of this is
seen in what they answer.

* **`Callback.Passive`** — a callback that modifies nothing.
* **`Newton.agree_step`** — the two steps have the same status, and leave points that hold the same.
* **`Iteration.agree_advance`**, **`Iteration.agree_loop`** — so do single advances, up to the
  histories that are kept, and by induction on the fuel the loops.
* **`Iteration.agree_run`** — the two runs give the same answer or are refused for the same
  cause. -/

namespace NewtonRaphson

variable {S E : Type}

/-- A callback is **passive** if it modifies nothing: it always returns, overwrites no matrix, and
leaves the settings alone. It may look at the point, write to the journal and keep what it saw. -/
structure Callback.Passive (report : Callback S E) : Prop where
  /-- It is not refused. -/
  returns : ∀ steps x status w, (report steps x status w).1 = .ok ()
  /-- No matrix is overwritten. -/
  leaves : ∀ steps x status y, (report steps x status).Leaves y
  /-- The settings are left alone. -/
  settings : ∀ steps x status w, (report steps x status w).2.settings = w.settings

/-- A progress without its history. -/
def Progress.bare (p : Progress S) : Progress S := { p with history := [] }

/-- The **answer** of a run, apart from the point itself and the history: status, number of steps
and norm of the gradient at its end, whether it converged, and why it ended. -/
def Run.answer (result : Run S) : Progress S × Bool × StopReason :=
  (result.final.bare, result.converged, result.reason)

variable {known : Constants S} {x y : Value} {f : S}

/-! ## (1) Steps -/

/-- The same outcome carried out on either side leaves points that hold the same. -/
theorem World.Paired.carryOut [Scalar S] {r q : Ref} {w v : World S E}
    (h : w.Paired known (.matrix r) (.matrix q) f f v) (hr : known.Apart (.matrix r))
    (hq : known.Apart (.matrix q)) (o : StepOutcome S) (m : DenseMatrix S) :
    (o.carryOut r m w).Paired known (.matrix r) (.matrix q) f f (o.carryOut q m v) := by
  -- a constant is at another reference than the point
  have hkept {r : Ref} (hr : known.Apart (.matrix r)) {w : World S E} (hw : w.Holds known) :
      (o.carryOut r m w).Holds known := by
    intro a c hc
    have hne : a ≠ r := by
      rintro rfl
      rw [hr a rfl] at hc
      cases hc
    rw [StepOutcome.carryOut_store, StepOutcome.get?_settle_of_ne o hne]
    exact hw a c hc
  refine ⟨hkept hr h.holds, hkept hq h.holds', ?_, h.left, h.right⟩
  cases h.alike with
  | matrix ha hb => exact .matrix (StepOutcome.get?_settle ha) (StepOutcome.get?_settle hb)

section Step

variable [SingularValues S] {df ddf : Evaluator S E}

/-- **Two steps** with pure evaluators, from points that hold the same, have the same status and
leave points that hold the same. -/
theorem Newton.agree_step (hdf : df.Pure known) (hddf : ddf.Pure known) (hx : known.Apart x)
    (hy : known.Apart y) :
    Action.Same (World.Paired known x y f f) (step df ddf x : Action S E Status)
      (step df ddf y) := by
  intro w v h
  obtain ⟨w', v', -, -, hpaired, ⟨cause, hw, hv⟩ | ⟨r, q, m, a, b, rfl, rfl, hr, hq, hw, hv⟩⟩ :=
    step_cases_of_pure hdf hddf h
  · rw [hw, hv]
    exact .refused hpaired
  · rw [hw, hv, finish, finish]
    rcases outcome f m a b with cause | o
    · exact .refused hpaired
    · exact .returned (hpaired.carryOut hx hy o m) rfl

end Step

/-! ## (2) The parts of an advance -/

namespace Iteration

variable {df ddf : Evaluator S E}

/-- The norms of gradients at points that hold the same are the same. -/
theorem agree_gradientNorm [Scalar S] (hdf : df.Pure known) :
    Action.Same (World.Paired known x y f f) (gradientNorm df x : Action S E S)
      (gradientNorm df y) := by
  have hasked : Action.Agree (World.Paired known x y f f) (World.Paired known x y f f) World.Alike
      (df x) (df y) :=
    fun w v h => (hdf.agree h).of_imp fun _ _ h' => h'.2.2
  refine hasked.bind fun a b w v h => ?_
  obtain ⟨hpaired, halike⟩ := h
  cases halike with
  | matrix ha hb =>
    show Action.Agreement _ _ (.ok (w.store.get _).norm, w) (.ok (v.store.get _).norm, v)
    rw [Store.get_of_get? ha, Store.get_of_get? hb]
    exact .returned hpaired rfl
  | plain d => exact .refused hpaired

/-- Where an iteration is over does not depend on its history, nor on whether this is kept. -/
theorem isOver_of_bare_eq [Scalar S] {p q : Progress S} (hpq : p.bare = q.bare) (tolerance : S)
    (stepBound : Option Int) (keep keep' : Bool) :
    isOver ⟨tolerance, stepBound, keep⟩ p = isOver ⟨tolerance, stepBound, keep'⟩ q := by
  cases p
  cases q
  cases hpq
  rfl

/-- Nor does the answer of the run that ends there. -/
theorem answer_of_bare_eq [SingularValues S] {tolerance : S} {stepBound : Option Int}
    {p q : Progress S} (hpq : p.bare = q.bare) (keep keep' : Bool) :
    (runOf ⟨tolerance, stepBound, keep⟩ x p).answer =
      (runOf ⟨tolerance, stepBound, keep'⟩ y q).answer := by
  cases p
  cases q
  cases hpq
  rfl

section Callbacks

variable {callback callback' : Option (Callback S E)} (hcallback : ∀ report ∈ callback,
  report.Passive) (hcallback' : ∀ report ∈ callback', report.Passive)
include hcallback

/-- Telling a passive callback returns, and makes the world grow. -/
theorem tell_of_passive (n : Nat) (x : Value) (status : Status) (w : World S E) :
    ∃ w', tell callback n x status w = (.ok (), w') ∧ w.Grows w' := by
  cases callback with
  | none => exact ⟨w, rfl, .refl w⟩
  | some report =>
    have hpassive := hcallback report rfl
    exact ⟨_, Prod.ext (hpassive.returns n x status w) rfl,
      fun y m hy => hpassive.leaves n x status y w m hy, hpassive.settings n x status w⟩

include hcallback'

/-- Telling callbacks that modify nothing comes to the same as telling others, or none. -/
theorem agree_tell (n : Nat) (status : Status) :
    Action.Same (World.Paired known x y f f) (tell callback n x status)
      (tell callback' n y status) := by
  intro w v h
  obtain ⟨w', htell, hgrows⟩ := tell_of_passive hcallback n x status w
  obtain ⟨v', htell', hgrows'⟩ := tell_of_passive hcallback' n y status v
  rw [htell, htell']
  exact .returned (h.of_grows hgrows hgrows') rfl

/-! ## (3) Iterations -/

variable [SingularValues S] (hdf : df.Pure known) (hddf : ddf.Pure known) (hx : known.Apart x)
  (hy : known.Apart y)
include hdf hddf hx hy

/-- **Two advances** from the same progress come to the same progress, up to their histories. -/
theorem agree_advance {limits limits' : Limits S} {p q : Progress S} (hpq : p.bare = q.bare) :
    Action.Agree (World.Paired known x y f f) (World.Paired known x y f f)
      (fun _ _ p q => p.bare = q.bare)
      (advance df ddf limits callback x p) (advance df ddf limits' callback' y q) := by
  intro w v h
  have hstep := Newton.agree_step (f := f) hdf hddf hx hy
  have hsteps : p.steps = q.steps := (congrArg Progress.steps hpq :)
  rcases h.alike with @⟨r, s, m, hr, hs⟩ | d
  · -- the step, the copy of the point, the callback, the gradient
    rw [advance_matrix, advance_matrix, hsteps]
    refine hstep.bind_agree (fun status w₁ v₁ h₁ => ?_) w v h
    -- the copies of the points go into the histories only
    rw [Action.bind_of_ok (show Action.read r w₁ = (.ok (w₁.store.get r), w₁) from rfl),
      Action.bind_of_ok (show Action.read s v₁ = (.ok (v₁.store.get s), v₁) from rfl)]
    refine (agree_tell hcallback hcallback' _ status).bind_agree (fun _ => ?_) w₁ v₁ h₁
    refine (agree_gradientNorm hdf).bind_agree fun norm => ?_
    exact Action.agree_pure fun _ _ _ => rfl
  · -- a step on a plain value is refused
    have hrefused (u : World S E) :
        Newton.step df ddf (.plain d) u = (.error (.pointKind d.kindName), u) := rfl
    rw [advance, advance, Action.bind_of_error (hrefused w), Action.bind_of_error (hrefused v)]
    exact .refused h

variable (tolerance : S) (stepBound : Option Int) (keep keep' : Bool)

/-- **Two loops** from the same progress come to the same progress, up to their histories. By
induction on the fuel: they end after the same number of steps, since no limit looks at the
history. -/
theorem agree_loop (fuel : Nat) {p q : Progress S} (hpq : p.bare = q.bare) :
    Action.Agree (World.Paired known x y f f) (World.Paired known x y f f)
      (fun _ _ p? q? => p?.map Progress.bare = q?.map Progress.bare)
      (loop df ddf ⟨tolerance, stepBound, keep⟩ callback x fuel p)
      (loop df ddf ⟨tolerance, stepBound, keep'⟩ callback' y fuel q) := by
  induction fuel generalizing p q with
  | zero =>
    intro w v h
    have hsame := isOver_of_bare_eq hpq tolerance stepBound keep keep'
    cases hover : isOver ⟨tolerance, stepBound, keep⟩ p with
    | true =>
      rw [loop_of_isOver hover, loop_of_isOver (hsame.symm.trans hover)]
      exact .returned h (congrArg some hpq)
    | false =>
      rw [loop, if_neg (Bool.eq_false_iff.mp hover), loop,
        if_neg (Bool.eq_false_iff.mp (hsame.symm.trans hover))]
      exact .returned h rfl
  | succ fuel ih =>
    intro w v h
    have hsame := isOver_of_bare_eq hpq tolerance stepBound keep keep'
    cases hover : isOver ⟨tolerance, stepBound, keep⟩ p with
    | true =>
      rw [loop_of_isOver hover, loop_of_isOver (hsame.symm.trans hover)]
      exact .returned h (congrArg some hpq)
    | false =>
      -- neither loop is over, so both advance
      rw [loop_succ_of_not_isOver hover, loop_succ_of_not_isOver (hsame.symm.trans hover)]
      refine (agree_advance hcallback hcallback' hdf hddf hx hy hpq).bind
        (fun p' q' w₁ v₁ h₁ => ?_) w v h
      exact ih h₁.2 w₁ v₁ h₁.1

/-- **Two iterations** whose limits differ at most in whether the history is kept, with callbacks
that modify nothing: they give the same answer or are refused for the same cause, and leave points
that hold the same. -/
theorem agree_run (fuel : Nat) :
    Action.Agree (World.Paired known x y f f) (World.Paired known x y f f)
      (fun _ _ a? b? => a?.map Run.answer = b?.map Run.answer)
      (run fuel df ddf ⟨tolerance, stepBound, keep⟩ callback x)
      (run fuel df ddf ⟨tolerance, stepBound, keep'⟩ callback' y) := by
  by_cases hacc : Accepted ⟨tolerance, stepBound, keep⟩
  · -- the history plays no part in what limits are accepted
    have hacc' : Accepted ⟨tolerance, stepBound, keep'⟩ := hacc
    rw [run_of_accepted hacc, run_of_accepted hacc']
    refine (agree_gradientNorm hdf).bind_agree fun norm => ?_
    refine (agree_loop hcallback hcallback' hdf hddf hx hy tolerance stepBound keep keep' fuel
      rfl).bind ?_
    rintro p? q? w v ⟨h, hpq⟩
    cases p? with
    | none =>
      rw [Option.map_eq_none_iff.mp hpq.symm]
      exact .returned h rfl
    | some p =>
      obtain ⟨q, rfl, hqp⟩ := Option.map_eq_some_iff.mp hpq.symm
      -- the end is recorded in the journals
      refine .returned (h.of_grows (World.isFrame_grows.journal w _)
        (World.isFrame_grows.journal v _)) ?_
      exact congrArg some (answer_of_bare_eq hqp.symm keep keep')
  · intro w v h
    have hacc' : ¬ Accepted ⟨tolerance, stepBound, keep'⟩ := hacc
    rw [run_of_not_accepted hacc, run_of_not_accepted hacc']
    exact .refused h

end Callbacks

end Iteration

end NewtonRaphson
