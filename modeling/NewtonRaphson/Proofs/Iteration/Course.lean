import NewtonRaphson.Proofs.Calls
import NewtonRaphson.Proofs.Newton.Atomicity

/-! # The course of a run

If the functions of the caller leave the point alone, then a run is a chain of points, each of which
a Newton step made of the one before.

* **`Iteration.Stage`** — what there is to know of one point of the chain: its matrix, the status of
  the step to it, the norm of the gradient there, and the calls made on the way to it.
* **`Iteration.Course`** — the invariant: the stages start where the run does and each follows from
  the one before, and the progress is read off them.
* **`Iteration.run_course`** — a run that returns has a course that ends at its result, and its
  calls, under watch, are those of the course. -/

namespace NewtonRaphson

variable {S E : Type}

namespace Iteration

/-! ## (1) Stages -/

/-- A **stage** of a run: its start, or what comes of one of its steps. -/
structure Stage (S E : Type) where
  /-- What the point holds. -/
  point : Option (DenseMatrix S)
  /-- The status of the step that led here, `success` at the start. -/
  status : Status
  /-- The norm of the gradient, which is evaluated last. -/
  norm : S
  /-- The world once the gradient is evaluated. -/
  world : World S E
  /-- The calls that were made since the stage before. -/
  calls : List (Call S)

/-- The calls of the stages up to the `n`-th. -/
def callsOf (stage : Nat → Stage S E) (n : Nat) : List (Call S) :=
  (List.range (n + 1)).flatMap fun k => (stage k).calls

theorem callsOf_zero (stage : Nat → Stage S E) : callsOf stage 0 = (stage 0).calls := by
  simp [callsOf]

theorem callsOf_succ (stage : Nat → Stage S E) (n : Nat) :
    callsOf stage (n + 1) = callsOf stage n ++ (stage (n + 1)).calls := by
  rw [callsOf, List.range_succ, List.flatMap_append, List.flatMap_singleton, callsOf]

/-- The stages up to the `n`-th, with one more behind them. -/
def extend (stage : Nat → Stage S E) (n : Nat) (s : Stage S E) : Nat → Stage S E :=
  fun k => if k ≤ n then stage k else s

theorem extend_of_le {stage : Nat → Stage S E} {n k : Nat} {s : Stage S E} (h : k ≤ n) :
    extend stage n s k = stage k := if_pos h

theorem extend_succ {stage : Nat → Stage S E} {n : Nat} {s : Stage S E} :
    extend stage n s (n + 1) = s := if_neg (Nat.not_succ_le_self n)

/-- One more stage adds its calls to those of the stages before it. -/
theorem callsOf_extend_succ (stage : Nat → Stage S E) (n : Nat) (s : Stage S E) :
    callsOf (extend stage n s) (n + 1) = callsOf stage n ++ s.calls := by
  have hbefore : ∀ k ≤ n, callsOf (extend stage n s) k = callsOf stage k := by
    intro k hk
    induction k with
    | zero => rw [callsOf_zero, callsOf_zero, extend_of_le hk]
    | succ k ih => rw [callsOf_succ, callsOf_succ, ih (Nat.le_of_succ_le hk), extend_of_le hk]
  rw [callsOf_succ, extend_succ, hbefore n (Nat.le_refl n)]

/-- A stage **starts** a run from the world `w`: the gradient is evaluated at the point as it is. -/
structure Starts [Scalar S] (df : Evaluator S E) (x : Value) (w : World S E) (s : Stage S E) :
    Prop where
  /-- The point is what the caller handed over. -/
  point : s.point = w.held x
  /-- There was no step, which counts as a success. -/
  status : s.status = .success
  /-- The gradient is evaluated once. -/
  evaluates : gradientNorm df x w = (.ok s.norm, s.world)
  /-- The point is not touched. -/
  stands : s.world.held x = s.point
  /-- Nothing else is called. -/
  calls : ∃ g, s.norm = g.norm ∧ s.calls = [.asked .gradient x s.point (some g)]

variable [SingularValues S]

/-- The stage `s'` **follows** from the stage `s` by the step with the number `k + 1`. -/
structure Follows (df ddf : Evaluator S E) (limits : Limits S) (callback : Option (Callback S E))
    (x : Value) (k : Nat) (s s' : Stage S E) : Prop where
  /-- The step before succeeded. -/
  succeeded : s.status = .success
  /-- The gradient evaluated last was not within the tolerance. -/
  above : withinTolerance s.norm limits.tolerance = false
  /-- A Newton step makes the new point of the old one; then the callback is told, and the gradient
  is evaluated, both at the new point. -/
  moves : ∃ w₁ w₂, Newton.step df ddf x s.world = (.ok s'.status, w₁) ∧ w₁.held x = s'.point ∧
    tell callback (k + 1) x s'.status w₁ = (.ok (), w₂) ∧ w₂.held x = s'.point ∧
    gradientNorm df x w₂ = (.ok s'.norm, s'.world)
  /-- A step that fails leaves the point where it is. -/
  stays : s'.status ≠ .success → s'.point = s.point
  /-- The point is not touched after the step. -/
  stands : s'.world.held x = s'.point
  /-- Gradient and Hessian are asked for at the old point, the callback is told of the new one, and
  the gradient is asked for there; nothing else is called. -/
  calls : ∃ a b g, s'.norm = g.norm ∧ s'.calls =
    [.asked .gradient x s.point (some a), .asked .hessian x s.point (some b)] ++
      tellings callback (k + 1) x s'.point s'.status ++ [.asked .gradient x s'.point (some g)]

/-- **The course of an iteration** from the world `w` to the progress `p`. -/
structure Course (df ddf : Evaluator S E) (limits : Limits S) (callback : Option (Callback S E))
    (x : Value) (w : World S E) (p : Progress S) (stage : Nat → Stage S E) : Prop where
  /-- The first stage is the start. -/
  starts : Starts df x w (stage 0)
  /-- Each stage follows from the one before. -/
  follows : ∀ k < p.steps, Follows df ddf limits callback x k (stage k) (stage (k + 1))
  /-- The status is that of the last stage. -/
  status : p.status = (stage p.steps).status
  /-- The norm is that of the gradient at the last stage. -/
  gradientNorm : p.gradientNorm = (stage p.steps).norm
  /-- The history, if it is kept, is the points of all stages but the first. -/
  history : p.history.map some =
    if limits.keepHistory then (List.range p.steps).map fun k => (stage (k + 1)).point else []

section Invariant

variable {df ddf : Evaluator S E} {limits : Limits S} {callback : Option (Callback S E)} {x : Value}
variable {w₀ w w' : World S E} {p p' : Progress S} {stage : Nat → Stage S E} {s s' : Stage S E}

/-! ## (2) A run keeps its course -/

/-- Every stage of a course leaves the point in the world as it is. -/
theorem Course.stands (h : Course df ddf limits callback x w₀ p stage) {k : Nat}
    (hk : k ≤ p.steps) : (stage k).world.held x = (stage k).point := by
  cases k with
  | zero => exact h.starts.stands
  | succ k => exact (h.follows k hk).stands

/-- The first gradient makes a first stage. -/
theorem exists_starts (hdf : (df x).Leaves x) (hx : ∀ r, x = .matrix r → r < w₀.store.size)
    {norm : S} (hnorm : gradientNorm df x w₀ = (.ok norm, w)) :
    ∃ s : Stage S E, Starts df x w₀ s ∧ s.norm = norm ∧ s.world = w ∧
      gradientNorm (df.watched .gradient) x (w₀.watched []) = (.ok norm, w.watched s.calls) := by
  obtain ⟨g, -, hg, hnorm'⟩ := gradientNorm_watched hnorm
  refine ⟨⟨w₀.held x, .success, norm, w, [.asked .gradient x (w₀.held x) (some (w.store.get g))]⟩,
    ⟨rfl, rfl, hnorm, ?_, _, hg, rfl⟩, rfl, rfl, hnorm' []⟩
  cases x with
  | plain d => rfl
  | matrix r =>
    have hheld : w₀.held (.matrix r) = some (w₀.store.get r) := Store.get?_of_lt (hx r rfl)
    exact ((leaves_gradientNorm hdf).held_of_eq hnorm hheld).trans hheld.symm

/-- **An advance makes one more stage**, which follows from the last one. -/
theorem exists_follows (hdf : (df x).Leaves x) (hddf : (ddf x).Leaves x)
    (hcallback : ∀ report ∈ callback, ∀ steps status, (report steps x status).Leaves x)
    {m : DenseMatrix S} (hpoint : s.point = some m) (hstands : s.world.held x = s.point)
    (hstatus : p.status = s.status) (hnorm : p.gradientNorm = s.norm)
    (hgo : isOver limits p = false)
    (hadv : advance df ddf limits callback x p s.world = (.ok p', w')) :
    ∃ (s' : Stage S E) (m' : DenseMatrix S), Follows df ddf limits callback x p.steps s s' ∧
      s'.point = some m' ∧ s'.world = w' ∧
      p' = ⟨p.steps + 1, s'.status, s'.norm, p.history ++ kept limits.keepHistory m'⟩ ∧
      ∀ calls : List (Call S),
        advance (df.watched .gradient) (ddf.watched .hessian) limits (callback.map Callback.watched)
          x p (s.world.watched calls) = (.ok p', w'.watched (calls ++ s'.calls)) := by
  obtain ⟨hsuccess, habove, -⟩ := isOver_eq_false_iff.mp hgo
  obtain ⟨r, status, w₁, w₂, norm, rfl, hstep, htell, hgradient, rfl⟩ := advance_eq_ok_iff.mp hadv
  -- the point is followed through the step, the callback and the gradient
  have hm : s.world.held (.matrix r) = some m := hstands.trans hpoint
  obtain ⟨m', hm₁, hstays⟩ := Newton.held_of_step_eq_ok hdf hddf hm hstep
  have hm₂ : w₂.held (.matrix r) = some m' :=
    (leaves_tell fun report hr => hcallback report hr _ _).held_of_eq htell hm₁
  have hm' : w'.held (.matrix r) = some m' := (leaves_gradientNorm hdf).held_of_eq hgradient hm₂
  -- the log has the point as it was when each call was made
  obtain ⟨v, w₃, a, b, hg, hstep'⟩ := step_watched hstep
  have hm₃ : w₃.held (.matrix r) = some m := hdf.held_of_eq hg hm
  obtain ⟨g, -, hgnorm, hgradient'⟩ := gradientNorm_watched hgradient
  refine ⟨⟨some m', status, norm, w',
    [.asked .gradient (.matrix r) s.point (some a), .asked .hessian (.matrix r) s.point (some b)] ++
      tellings callback (p.steps + 1) (.matrix r) (some m') status ++
        [.asked .gradient (.matrix r) (some m') (some (w'.store.get g))]⟩, m', ?_, rfl, rfl, ?_, ?_⟩
  · exact ⟨hstatus.symm.trans hsuccess, hnorm ▸ habove,
      ⟨w₁, w₂, hstep, hm₁, htell, hm₂, hgradient⟩,
      fun hne => (congrArg some (hstays hne)).trans hpoint.symm, hm', ⟨a, b, _, hgnorm, rfl⟩⟩
  · rw [Store.get_of_get? hm₁]
  · intro calls
    rw [advance_watched limits p hstep' htell hgradient' calls, hm₁, hm₂, hm₃, hm, hpoint]

/-- A course with one more stage is the course of the iteration after the advance. -/
theorem Course.extend (h : Course df ddf limits callback x w₀ p stage) {m' : DenseMatrix S}
    (hs : Follows df ddf limits callback x p.steps (stage p.steps) s')
    (hpoint : s'.point = some m') :
    Course df ddf limits callback x w₀
      ⟨p.steps + 1, s'.status, s'.norm, p.history ++ kept limits.keepHistory m'⟩
      (Iteration.extend stage p.steps s') where
  starts := by rw [extend_of_le (Nat.zero_le _)]; exact h.starts
  follows := by
    intro k hk
    rcases Nat.lt_succ_iff_lt_or_eq.mp hk with hlt | rfl
    · rw [extend_of_le (Nat.le_of_lt hlt), extend_of_le hlt]
      exact h.follows k hlt
    · -- the new stage is the one behind the last
      rw [extend_of_le (Nat.le_refl _), extend_succ]
      exact hs
  status := by rw [extend_succ]
  gradientNorm := by rw [extend_succ]
  history := by
    have hold := h.history
    cases hkeep : limits.keepHistory with
    | false =>
      rw [hkeep] at hold
      simpa [kept] using hold
    | true =>
      rw [hkeep, if_pos rfl] at hold
      have hbefore :
          (List.range p.steps).map (fun k => (Iteration.extend stage p.steps s' (k + 1)).point)
          = (List.range p.steps).map fun k => (stage (k + 1)).point :=
        List.map_congr_left fun k hk => by rw [extend_of_le (List.mem_range.mp hk)]
      rw [if_pos rfl, List.range_succ, List.map_append, List.map_append, hold, hbefore]
      simp [kept, extend_succ, hpoint]

/-- **Wherever an iteration stands it has kept a course**, and under watch it has made the calls of
that course. -/
theorem Reached.exists_course (hdf : (df x).Leaves x) (hddf : (ddf x).Leaves x)
    (hcallback : ∀ report ∈ callback, ∀ steps status, (report steps x status).Leaves x)
    (hx : ∀ r, x = .matrix r → r < w₀.store.size) (h : Reached df ddf limits callback x w₀ p w) :
    ∃ stage : Nat → Stage S E, Course df ddf limits callback x w₀ p stage ∧
      (stage p.steps).world = w ∧ (∀ r, x = .matrix r → ∃ m, (stage p.steps).point = some m) ∧
      Reached (df.watched .gradient) (ddf.watched .hessian) limits (callback.map Callback.watched) x
        (w₀.watched []) p (w.watched (callsOf stage p.steps)) := by
  induction h with
  | start hnorm =>
    obtain ⟨s, hs, rfl, rfl, hnorm'⟩ := exists_starts hdf hx hnorm
    refine ⟨fun _ => s, ⟨hs, nofun, hs.status.symm, rfl, ?_⟩, rfl, ?_, ?_⟩
    · cases limits.keepHistory <;> rfl
    · rintro r rfl
      exact ⟨w₀.store.get r, hs.point.trans (Store.get?_of_lt (hx r rfl))⟩
    · rw [callsOf_zero]
      exact .start hnorm'
  | @advance p p' w w' hp hgo hadv ih =>
    obtain ⟨stage, hcourse, rfl, hpoint, hreached⟩ := ih
    obtain ⟨r, _, _, _, _, hr, -⟩ := advance_eq_ok_iff.mp hadv
    obtain ⟨m, hm⟩ := hpoint r hr
    obtain ⟨s', m', hs', hm', rfl, rfl, hadv'⟩ := exists_follows hdf hddf hcallback hm
      (hcourse.stands (Nat.le_refl _)) hcourse.status hcourse.gradientNorm hgo hadv
    refine ⟨extend stage p.steps s', hcourse.extend hs' hm', ?_, fun _ _ => ⟨m', ?_⟩, ?_⟩
    · rw [extend_succ]
    · rw [extend_succ, hm']
    · rw [callsOf_extend_succ]
      exact hreached.advance hgo (hadv' _)

/-! ## (3) Counting the calls of a course -/

/-- The gradient is asked for once at the start and twice in each step, the Hessian once in each
step. -/
theorem Course.countP_asks (h : Course df ddf limits callback x w₀ p stage) (which : Derivative)
    {n : Nat} (hn : n ≤ p.steps) :
    (callsOf stage n).countP (Call.asks which) =
      match which with
      | .gradient => 1 + 2 * n
      | .hessian => n := by
  induction n with
  | zero =>
    obtain ⟨g, -, hcalls⟩ := h.starts.calls
    rw [callsOf_zero, hcalls]
    cases which <;> rfl
  | succ n ih =>
    obtain ⟨a, b, g, -, hcalls⟩ := (h.follows n hn).calls
    rw [callsOf_succ, List.countP_append, ih (Nat.le_of_succ_le hn), hcalls]
    -- what the callback is told asks for no derivative
    cases which <;> cases callback <;> simp [tellings, Call.asks] <;> omega

/-- The callback, if there is one, is told of each step once and in order. -/
theorem Course.filterMap_told? (h : Course df ddf limits callback x w₀ p stage) {n : Nat}
    (hn : n ≤ p.steps) :
    (callsOf stage n).filterMap Call.told? =
      if callback.isSome then
        (List.range n).map fun k => (k + 1, x, (stage (k + 1)).point, (stage (k + 1)).status)
      else [] := by
  induction n with
  | zero =>
    obtain ⟨g, -, hcalls⟩ := h.starts.calls
    rw [callsOf_zero, hcalls]
    cases callback <;> rfl
  | succ n ih =>
    obtain ⟨a, b, g, -, hcalls⟩ := (h.follows n hn).calls
    rw [callsOf_succ, List.filterMap_append, ih (Nat.le_of_succ_le hn), hcalls, List.range_succ,
      List.map_append]
    cases callback with
    | none => rfl
    | some report =>
      rw [if_pos Option.isSome_some, if_pos Option.isSome_some]
      rfl

end Invariant

/-! ## (4) Runs that return -/

/-- **The course of a run.** Let evaluators and callback leave the point alone. Then a run that
returns after `n` steps has a course: points `x₀, …, xₙ` that start with what the caller handed
over, each made of the one before by a Newton step that was taken because all steps before it had
succeeded and the gradient evaluated last was not within the tolerance. The caller's point holds
`xₙ`, the status is that of the last step, the history is `x₁, …, xₙ`; and under watch the run does
the same and makes these calls: the callback is told of each step once and in order, with the new
point and the status of the step, the gradient is asked for `1 + 2 * n` times and the Hessian `n`
times. -/
theorem run_course (fuel : Nat) (df ddf : Evaluator S E) (limits : Limits S)
    (callback : Option (Callback S E)) (x : Value) (w w' : World S E) (result : Run S)
    (hdf : (df x).Leaves x) (hddf : (ddf x).Leaves x)
    (hcallback : ∀ report ∈ callback, ∀ steps status, (report steps x status).Leaves x)
    (hx : ∀ r, x = .matrix r → r < w.store.size)
    (hrun : run fuel df ddf limits callback x w = (.ok (some result), w')) :
    ∃ stage : Nat → Stage S E, Course df ddf limits callback x w result.final stage ∧
      result.point = x ∧ w'.held x = (stage result.final.steps).point ∧
      ∃ calls : List (Call S),
        run fuel (df.watched .gradient) (ddf.watched .hessian) limits
            (callback.map Callback.watched) x (w.watched []) =
          (.ok (some result), w'.watched calls) ∧
        calls = callsOf stage result.final.steps ∧
        calls.filterMap Call.told? =
          (if callback.isSome then (List.range result.final.steps).map fun k =>
            (k + 1, x, (stage (k + 1)).point, (stage (k + 1)).status) else []) ∧
        calls.countP (Call.asks .gradient) = 1 + 2 * result.final.steps ∧
        calls.countP (Call.asks .hessian) = result.final.steps := by
  obtain ⟨haccepted, q, w₁, hq, hover, hsteps, rfl, rfl⟩ := run_eq_some_iff.mp hrun
  obtain ⟨stage, hcourse, rfl, -, hreached⟩ := hq.exists_course hdf hddf hcallback hx
  refine ⟨stage, hcourse, rfl, ?_, callsOf stage q.steps, ?_, rfl,
    hcourse.filterMap_told? (Nat.le_refl _), hcourse.countP_asks .gradient (Nat.le_refl _),
    hcourse.countP_asks .hessian (Nat.le_refl _)⟩
  · have hstands := hcourse.stands (Nat.le_refl q.steps)
    cases x <;> exact hstands
  · exact run_eq_some_iff.mpr ⟨haccepted, q, _, hreached, hover, hsteps, rfl, rfl⟩

/-! ### A run of one step -/

/-- The gradient of the square of the norm: twice the point, in a matrix of its own. -/
def twice : Evaluator Float Unit
  | .matrix r => do
    let m ← Action.read r
    return .matrix (← Action.add (m.scale 2.0))
  | .plain d => return .plain d

/-- Doubling a point does not touch it. -/
theorem leaves_twice (x y : Value) : (twice x).Leaves y := by
  cases x with
  | matrix r =>
    exact (Action.leaves_read r y).bind fun m =>
      (Action.leaves_add _ y).bind fun q => Action.leaves_pure _ y
  | plain d => exact Action.leaves_pure _ y

/-- A run from the point `(-3, -2)` with a callback and a history. -/
def shortRun : Except Fault (Option (Run Float)) × World Float Unit :=
  run 3 twice (fun _ => pure (.matrix 1)) ⟨0.5, none, true⟩ (some fun _ _ _ => pure ()) (.matrix 0)
    Newton.twoMatrices

/-- The run from `(-3, -2)` to the minimum of the square of the norm has a course of one step, which
succeeds and is all of its history. -/
theorem run_course_of_one_step :
    ∃ (result : Run Float) (stage : Nat → Stage Float Unit), shortRun.1 = .ok (some result) ∧
      result.final.steps = 1 ∧ (stage 0).point = Newton.twoMatrices.held (.matrix 0) ∧
      (stage 1).status = .success ∧ shortRun.2.held (.matrix 0) = (stage 1).point ∧
      result.final.history.map some = [(stage 1).point] := by
  have hsteps :
      (shortRun.1.toOption.join.map fun result => (result.final.steps, result.final.status))
      = some (1, .success) := by decide +kernel
  obtain ⟨result, hrun, hfinal⟩ := Action.exists_eq_of_map_eq_some hsteps
  obtain ⟨hone, hsuccess⟩ := Prod.mk.inj hfinal
  obtain ⟨stage, hcourse, -, hheld, -⟩ :=
    run_course 3 twice (fun _ => pure (.matrix 1)) ⟨0.5, none, true⟩
    (some fun _ _ _ => pure ()) (.matrix 0) Newton.twoMatrices shortRun.2 result (leaves_twice _ _)
    (Action.leaves_pure _ _) (fun report hr _ _ => by cases hr; exact Action.leaves_pure _ _)
    (fun r hr => by cases hr; decide) hrun
  have hhistory := hcourse.history
  have hstatus := hcourse.status
  rw [hone] at hheld hhistory hstatus
  exact ⟨result, stage, congrArg Prod.fst hrun, hone, hcourse.starts.point,
    hstatus.symm.trans hsuccess, hheld, hhistory⟩

end Iteration

end NewtonRaphson
