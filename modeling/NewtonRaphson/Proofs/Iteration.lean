import NewtonRaphson.Iteration
import NewtonRaphson.Proofs.Newton

/-! # Where an iteration can stand

An iteration is its first gradient followed by single advances, and every property of a run is an
invariant of them:

* **`Iteration.Reached … w₀ p w`** — an iteration from the world `w₀` can stand at the progress `p`
  in the world `w`: after the first gradient, or one advance after a stand where it was not over.
* **`Iteration.advance_eq_ok_iff`** — what one advance does, said once: a step, the callback, the
  gradient.
* **`Iteration.run_eq_some_iff`** — a run returns exactly where it has reached a stand at which it
  is over and its fuel covers the steps; so fuel decides nothing but whether a run is carried to its
  end. -/

namespace NewtonRaphson

variable {S E : Type}

namespace Iteration

/-! ## (1) The parts of an advance -/

/-- Tells the callback, if there is one, of a step. -/
def tell (callback : Option (Callback S E)) (steps : Nat) (x : Value) (status : Status) :
    Action S E Unit :=
  match callback with
  | some report => report steps x status
  | none => pure ()

/-- The copies of the point that are kept of a step. -/
def kept (keepHistory : Bool) (m : DenseMatrix S) : List (DenseMatrix S) :=
  if keepHistory then [m] else []

/-- The norm of the gradient is that of the matrix the evaluator answers with. -/
theorem gradientNorm_eq_ok_iff [Scalar S] {df : Evaluator S E} {x : Value} {w w' : World S E}
    {norm : S} :
    gradientNorm df x w = (.ok norm, w') ↔
      ∃ g, df x w = (.ok (.matrix g), w') ∧ norm = (w'.store.get g).norm := by
  unfold gradientNorm
  rw [Action.bind_eq_ok_iff]
  constructor
  · rintro ⟨v, w₁, hdf, hv⟩
    cases v with
    | matrix g => cases hv; exact ⟨g, hdf, rfl⟩
    | plain d => cases hv
  · rintro ⟨g, hdf, rfl⟩
    exact ⟨.matrix g, w', hdf, rfl⟩

/-- A gradient without a norm is refused as anything is that lacks what only a matrix has. -/
theorem gradientNorm_of_plain [Scalar S] {df : Evaluator S E} {x : Value} {w w' : World S E}
    {d : Datum} (hdf : df x w = (.ok (.plain d), w')) :
    (gradientNorm df x w : Except Fault S × World S E) = (.error .noSuchAttribute, w') := by
  rw [gradientNorm, Action.bind_of_ok hdf]
  rfl

/-- The gradient's norm touches no more than the evaluator. -/
theorem leaves_gradientNorm [Scalar S] {df : Evaluator S E} {x y : Value} (hdf : (df x).Leaves y) :
    (gradientNorm df x : Action S E S).Leaves y := by
  refine hdf.bind fun v => ?_
  cases v with
  | matrix r => exact (Action.leaves_read r y).bind fun m => Action.leaves_pure _ y
  | plain d => exact Action.leaves_fail _ y

/-- Telling a callback touches no more than the callback. -/
theorem leaves_tell {callback : Option (Callback S E)} {steps : Nat} {x y : Value} {status : Status}
    (h : ∀ report ∈ callback, (report steps x status).Leaves y) :
    (tell callback steps x status).Leaves y := by
  cases callback with
  | some report => exact h report rfl
  | none => exact Action.leaves_pure _ y

/-- An iteration goes on exactly if its last step succeeded, the norm of its gradient is above the
tolerance, and the bound on its steps is not reached. -/
theorem isOver_eq_false_iff [Scalar S] {limits : Limits S} {p : Progress S} :
    isOver limits p = false ↔ p.status = .success ∧
      withinTolerance p.gradientNorm limits.tolerance = false ∧ atBound limits p = false := by
  unfold isOver hasConverged
  cases p.status <;> simp

/-- An iteration is over where it has converged. -/
theorem isOver_of_hasConverged [Scalar S] {limits : Limits S} {p : Progress S}
    (h : hasConverged limits p = true) : isOver limits p = true := by
  show (p.status != .success || hasConverged limits p || atBound limits p) = true
  rw [h, Bool.or_true, Bool.true_or]

variable [SingularValues S]

/-- An advance at a matrix, with its effects written out in their order. -/
theorem advance_matrix (df ddf : Evaluator S E) (limits : Limits S)
    (callback : Option (Callback S E)) (r : Ref) (p : Progress S) :
    advance df ddf limits callback (.matrix r) p = (do
      let status ← Newton.step df ddf (.matrix r)
      let m ← Action.read r
      tell callback (p.steps + 1) (.matrix r) status
      let norm ← gradientNorm df (.matrix r)
      return ⟨p.steps + 1, status, norm, p.history ++ kept limits.keepHistory m⟩) := by
  funext w
  rcases hstep : Newton.step df ddf (.matrix r) w with ⟨cause | status, w₁⟩
  · rw [advance, Action.bind_of_error hstep, Action.bind_of_error hstep]
  · rw [advance, Action.bind_of_ok hstep, Action.bind_of_ok hstep]
    obtain ⟨tolerance, stepBound, keepHistory⟩ := limits
    cases keepHistory <;> cases callback <;> rfl

/-- **What an advance does.** From a progress `p` it takes a step at a matrix, keeps a copy of the
point if the history is wanted, tells the callback the number of the step, and evaluates the
gradient anew. -/
theorem advance_eq_ok_iff {df ddf : Evaluator S E} {limits : Limits S}
    {callback : Option (Callback S E)} {x : Value} {p p' : Progress S} {w w' : World S E} :
    advance df ddf limits callback x p w = (.ok p', w') ↔
      ∃ r status w₁ w₂ norm, x = .matrix r ∧ Newton.step df ddf x w = (.ok status, w₁) ∧
        tell callback (p.steps + 1) x status w₁ = (.ok (), w₂) ∧
        gradientNorm df x w₂ = (.ok norm, w') ∧
        p' = ⟨p.steps + 1, status, norm,
          p.history ++ kept limits.keepHistory (w₁.store.get r)⟩ := by
  constructor
  · intro h
    obtain ⟨status, w₁, hstep, -⟩ := Action.bind_eq_ok_iff.mp h
    obtain ⟨r, -, -, -, -, -, rfl, -⟩ := Newton.step_eq_ok hstep
    rw [advance_matrix, Action.bind_of_ok hstep,
      Action.bind_of_ok (show Action.read r w₁ = (.ok (w₁.store.get r), w₁) from rfl)] at h
    obtain ⟨_, w₂, htell, h⟩ := Action.bind_eq_ok_iff.mp h
    obtain ⟨norm, w₃, hnorm, h⟩ := Action.bind_eq_ok_iff.mp h
    cases h
    exact ⟨r, status, w₁, w₂, norm, rfl, hstep, htell, hnorm, rfl⟩
  · rintro ⟨r, status, w₁, w₂, norm, rfl, hstep, htell, hnorm, rfl⟩
    rw [advance_matrix, Action.bind_of_ok hstep,
      Action.bind_of_ok (show Action.read r w₁ = (.ok (w₁.store.get r), w₁) from rfl),
      Action.bind_of_ok htell, Action.bind_of_ok hnorm]
    rfl

/-! ## (2) The stands of an iteration -/

/-- **Where an iteration from the world `w₀` can stand**: at its start once the gradient is known,
and one advance further from each stand where it was not over. -/
inductive Reached (df ddf : Evaluator S E) (limits : Limits S) (callback : Option (Callback S E))
    (x : Value) (w₀ : World S E) : Progress S → World S E → Prop
  /-- The gradient was evaluated and no step was taken. -/
  | start {norm : S} {w : World S E} (hnorm : gradientNorm df x w₀ = (.ok norm, w)) :
      Reached df ddf limits callback x w₀ ⟨0, .success, norm, []⟩ w
  /-- The iteration was not over and advanced. -/
  | advance {p p' : Progress S} {w w' : World S E}
      (hp : Reached df ddf limits callback x w₀ p w) (hgo : isOver limits p = false)
      (hadv : advance df ddf limits callback x p w = (.ok p', w')) :
      Reached df ddf limits callback x w₀ p' w'

section Loop

variable {df ddf : Evaluator S E} {limits : Limits S} {callback : Option (Callback S E)} {x : Value}
variable {w₀ w w' : World S E} {p p' q : Progress S}

/-- Where an iteration is over its loop stops, whatever the fuel. -/
theorem loop_of_isOver (h : isOver limits p = true) (fuel : Nat) (w : World S E) :
    loop df ddf limits callback x fuel p w = (.ok (some p), w) := by
  cases fuel <;> rw [loop, if_pos h] <;> rfl

/-- Where an iteration is not over its loop advances, at the cost of a unit of fuel. -/
theorem loop_succ_of_not_isOver (h : isOver limits p = false) (fuel : Nat) (w : World S E) :
    loop df ddf limits callback x (fuel + 1) p w =
      (advance df ddf limits callback x p >>= loop df ddf limits callback x fuel) w := by
  rw [loop, if_neg (Bool.eq_false_iff.mp h)]

/-- Before every stand the gradient was evaluated a first time. -/
theorem Reached.exists_start (h : Reached df ddf limits callback x w₀ p w) :
    ∃ norm w₁, gradientNorm df x w₀ = (.ok norm, w₁) := by
  induction h with
  | start hnorm => exact ⟨_, _, hnorm⟩
  | advance _ _ _ ih => exact ih

/-- The loop from the start comes to every stand, having spent a unit of fuel for each step. -/
theorem Reached.loop_add (h : Reached df ddf limits callback x w₀ p w') {norm : S}
    (hnorm : gradientNorm df x w₀ = (.ok norm, w)) (fuel : Nat) :
    loop df ddf limits callback x (p.steps + fuel) ⟨0, .success, norm, []⟩ w =
      loop df ddf limits callback x fuel p w' := by
  induction h generalizing fuel with
  | start hnorm' =>
    rw [hnorm] at hnorm'
    cases hnorm'
    rw [Nat.zero_add]
  | @advance p p' w₁ w₂ hp hgo hadv ih =>
    -- the advance counts a step and costs a unit of fuel
    have hsteps : p'.steps + fuel = p.steps + (fuel + 1) := by
      obtain ⟨_, _, _, _, _, -, -, -, -, rfl⟩ := advance_eq_ok_iff.mp hadv
      show p.steps + 1 + fuel = p.steps + (fuel + 1)
      omega
    rw [hsteps, ih (fuel + 1), loop_succ_of_not_isOver hgo, Action.bind_of_ok hadv]

/-- A loop that returns has reached a stand where the iteration is over. -/
theorem Reached.of_loop (hp : Reached df ddf limits callback x w₀ p w) {fuel : Nat}
    (h : loop df ddf limits callback x fuel p w = (.ok (some q), w')) :
    Reached df ddf limits callback x w₀ q w' ∧ isOver limits q = true ∧
      q.steps ≤ p.steps + fuel := by
  induction fuel generalizing p w with
  | zero =>
    by_cases hover : isOver limits p = true
    · rw [loop_of_isOver hover] at h
      cases h
      exact ⟨hp, hover, Nat.le_refl _⟩
    · rw [loop, if_neg hover] at h
      cases h
  | succ fuel ih =>
    by_cases hover : isOver limits p = true
    · rw [loop_of_isOver hover] at h
      cases h
      exact ⟨hp, hover, Nat.le_add_right _ _⟩
    · have hgo : isOver limits p = false := Bool.eq_false_iff.mpr hover
      rw [loop_succ_of_not_isOver hgo] at h
      obtain ⟨p₁, w₁, hadv, hloop⟩ := Action.bind_eq_ok_iff.mp h
      obtain ⟨hq, hqover, hqsteps⟩ := ih (hp.advance hgo hadv) hloop
      obtain ⟨_, _, _, _, _, -, -, -, -, rfl⟩ := advance_eq_ok_iff.mp hadv
      exact ⟨hq, hqover,
        by rw [show p.steps + (fuel + 1) = p.steps + 1 + fuel by omega]; exact hqsteps⟩

/-- More fuel changes nothing where the fuel suffices. -/
theorem loop_succ_fuel {fuel : Nat} (h : (loop df ddf limits callback x fuel p w).1 ≠ .ok none) :
    loop df ddf limits callback x (fuel + 1) p w = loop df ddf limits callback x fuel p w := by
  induction fuel generalizing p w with
  | zero =>
    by_cases hover : isOver limits p = true
    · rw [loop_of_isOver hover, loop_of_isOver hover]
    · rw [loop, if_neg hover] at h
      exact absurd rfl h
  | succ fuel ih =>
    by_cases hover : isOver limits p = true
    · rw [loop_of_isOver hover, loop_of_isOver hover]
    · have hgo : isOver limits p = false := Bool.eq_false_iff.mpr hover
      rw [loop_succ_of_not_isOver hgo] at h ⊢
      rw [loop_succ_of_not_isOver hgo]
      rcases hadv : advance df ddf limits callback x p w with ⟨cause | p', w'⟩
      · rw [Action.bind_of_error hadv, Action.bind_of_error hadv]
      · rw [Action.bind_of_ok hadv] at h ⊢
        rw [Action.bind_of_ok hadv]
        exact ih h

end Loop

/-! ## (3) Runs -/

/-- The result that a run returns where it ends. -/
def runOf (limits : Limits S) (x : Value) (q : Progress S) : Run S :=
  ⟨x, q, hasConverged limits q, reason limits q⟩

/-- The world once the end of a run is recorded in the journal. -/
def closing (limits : Limits S) (q : Progress S) (w : World S E) : World S E :=
  { w with
    journal := w.journal.emit
      ⟨Journal.iterationLogger, Level.info, .stopped q.steps (reason limits q)⟩ }

/-- The limits that a run accepts: neither tolerance nor bound is negative. -/
def Accepted (limits : Limits S) : Prop :=
  Scalar.lt limits.tolerance Scalar.zero = false ∧ limits.stepBound.any (· < 0) = false

/-- A run that starts: the first gradient, the loop, and the record of its end. -/
theorem run_of_accepted {df ddf : Evaluator S E} {limits : Limits S}
    {callback : Option (Callback S E)} {x : Value} (h : Accepted limits) (fuel : Nat) :
    run fuel df ddf limits callback x = (do
      let norm ← gradientNorm df x
      let end? ← loop df ddf limits callback x fuel ⟨0, .success, norm, []⟩
      match end? with
      | none => return none
      | some q => do
        Action.change (closing limits q)
        return some (runOf limits x q)) := by
  unfold run
  simp only [h.1, h.2]
  rfl

section Started

variable {df ddf : Evaluator S E} {limits : Limits S} {callback : Option (Callback S E)} {x : Value}
variable {w w₁ w₂ : World S E} {norm : S} {q : Progress S}

/-- A run whose loop ends returns the end, and records it. -/
theorem run_of_loop (hacc : Accepted limits) (hnorm : gradientNorm df x w = (.ok norm, w₁))
    {fuel : Nat}
    (hloop : loop df ddf limits callback x fuel ⟨0, .success, norm, []⟩ w₁ = (.ok (some q), w₂)) :
    run fuel df ddf limits callback x w = (.ok (some (runOf limits x q)), closing limits q w₂) := by
  rw [run_of_accepted hacc, Action.bind_of_ok hnorm, Action.bind_of_ok hloop]
  rfl

/-- After its first gradient a run returns what its loop returns. -/
theorem fst_run (hacc : Accepted limits) (hnorm : gradientNorm df x w = (.ok norm, w₁))
    (fuel : Nat) :
    (run fuel df ddf limits callback x w).1 =
      (loop df ddf limits callback x fuel ⟨0, .success, norm, []⟩ w₁).1.map
        (Option.map (runOf limits x)) := by
  rw [run_of_accepted hacc, Action.bind_of_ok hnorm]
  rcases hloop : loop df ddf limits callback x fuel ⟨0, .success, norm, []⟩ w₁ with ⟨cause | q?, w'⟩
  · rw [Action.bind_of_error hloop]
    rfl
  · rw [Action.bind_of_ok hloop]
    cases q? <;> rfl

end Started

/-- A run is refused where an advance is, if its fuel comes that far. -/
theorem run_of_advance_error {df ddf : Evaluator S E} {limits : Limits S}
    {callback : Option (Callback S E)} {x : Value} {w w₁ w₂ : World S E} {p : Progress S}
    {cause : Fault} (hacc : Accepted limits) (hp : Reached df ddf limits callback x w p w₁)
    (hgo : isOver limits p = false)
    (hadv : advance df ddf limits callback x p w₁ = (.error cause, w₂)) {fuel : Nat}
    (hfuel : p.steps < fuel) : run fuel df ddf limits callback x w = (.error cause, w₂) := by
  obtain ⟨norm, w₀, hnorm⟩ := hp.exists_start
  obtain ⟨rest, rfl⟩ : ∃ rest, fuel = p.steps + (rest + 1) := ⟨fuel - p.steps - 1, by omega⟩
  -- the loop comes to the stand, and from there it goes no further
  have hloop := hp.loop_add hnorm (rest + 1)
  rw [loop_succ_of_not_isOver hgo, Action.bind_of_error hadv] at hloop
  rw [run_of_accepted hacc, Action.bind_of_ok hnorm, Action.bind_of_error hloop]

/-- A run with a negative tolerance or bound is refused before anything is evaluated. -/
theorem run_of_not_accepted {df ddf : Evaluator S E} {limits : Limits S}
    {callback : Option (Callback S E)} {x : Value} (h : ¬ Accepted limits) (fuel : Nat)
    (w : World S E) :
    run fuel df ddf limits callback x w =
      (.error (if Scalar.lt limits.tolerance Scalar.zero then .toleranceSign else .stepBoundSign),
        w) := by
  unfold run
  -- the tolerance is looked at before the bound
  by_cases ht : Scalar.lt limits.tolerance Scalar.zero = true
  · simp only [ht]
    rfl
  · rw [Bool.not_eq_true] at ht
    have hb : limits.stepBound.any (· < 0) = true :=
      Bool.of_not_eq_false fun hb => h ⟨ht, hb⟩
    simp only [ht, hb]
    rfl

/-- **What a run returns.** A run returns exactly if its limits are accepted and it reaches a stand
where it is over with no more steps than its fuel; it returns that stand, and records its end. -/
theorem run_eq_some_iff {df ddf : Evaluator S E} {limits : Limits S}
    {callback : Option (Callback S E)} {x : Value} {fuel : Nat} {w w' : World S E}
    {result : Run S} :
    run fuel df ddf limits callback x w = (.ok (some result), w') ↔
      Accepted limits ∧ ∃ q w₁, Reached df ddf limits callback x w q w₁ ∧ isOver limits q = true ∧
        q.steps ≤ fuel ∧ result = runOf limits x q ∧ w' = closing limits q w₁ := by
  by_cases hacc : Accepted limits
  · rw [run_of_accepted hacc]
    constructor
    · intro h
      obtain ⟨norm, w₁, hnorm, h⟩ := Action.bind_eq_ok_iff.mp h
      obtain ⟨end?, w₂, hloop, h⟩ := Action.bind_eq_ok_iff.mp h
      cases end? with
      | none => cases h
      | some q =>
        cases h
        obtain ⟨hq, hover, hsteps⟩ := (Reached.start hnorm).of_loop hloop
        exact ⟨hacc, q, w₂, hq, hover, by rwa [Nat.zero_add] at hsteps, rfl, rfl⟩
    · rintro ⟨-, q, w₁, hq, hover, hsteps, rfl, rfl⟩
      -- the loop comes to the stand with some fuel left, and stops there
      obtain ⟨norm, w₂, hnorm⟩ := hq.exists_start
      have hloop := hq.loop_add hnorm (fuel - q.steps)
      rw [Nat.add_sub_cancel' hsteps, loop_of_isOver hover] at hloop
      rw [Action.bind_of_ok hnorm, Action.bind_of_ok hloop]
      rfl
  · rw [run_of_not_accepted hacc]
    exact ⟨nofun, fun h => absurd h.1 hacc⟩

/-- A run returns where it has converged. -/
theorem run_of_hasConverged {df ddf : Evaluator S E} {limits : Limits S}
    {callback : Option (Callback S E)} {x : Value} {w w₁ : World S E} {q : Progress S}
    (hacc : Accepted limits) (hq : Reached df ddf limits callback x w q w₁)
    (hconverged : hasConverged limits q = true) {fuel : Nat} (hfuel : q.steps ≤ fuel) :
    run fuel df ddf limits callback x w = (.ok (some (runOf limits x q)), closing limits q w₁) :=
  run_eq_some_iff.mpr ⟨hacc, q, w₁, hq, isOver_of_hasConverged hconverged, hfuel, rfl, rfl⟩

end Iteration

end NewtonRaphson
