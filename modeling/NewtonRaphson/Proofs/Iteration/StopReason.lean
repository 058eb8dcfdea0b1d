import NewtonRaphson.Proofs.Calls
import NewtonRaphson.Proofs.Newton.Atomicity

/-! # Why a run stopped

The reason of a run is not noted where its loop ends; it is worked out afterwards from the last
status and the last norm. It is nevertheless the true one, whatever evaluators and callback do:

* **`Iteration.reason_eq_iff`** — the reason of an iteration is the one that applies where it
  stands.
* **`Iteration.steps_le_of_reached`** — a bound on the steps is an invariant of the iteration.
* **`Iteration.Truthful`** — what the result of a run claims about its end, and when the claims are
  true.
* **`Iteration.run_truthful`** — every run that returns is truthful, and its last call is the
  gradient whose norm it returns; a run with a bound is carried to its end by as much fuel as the
  bound allows steps.
* **`Iteration.gradientNorm_ne_of_erasing`** — an evaluator that overwrites the point after it has
  answered makes the norm that of a point which is gone. -/

namespace NewtonRaphson

variable {S E : Type}

/-- The sentences of different reasons are different. -/
theorem StopReason.message_injective {a b : StopReason} (h : a.message = b.message) : a = b := by
  cases a <;> cases b <;> first | rfl | exact absurd h (by decide)

namespace Iteration

/-! ## (1) Reasons -/

/-- The bound is reached exactly if there is one and no fewer steps were taken. -/
theorem atBound_iff {limits : Limits S} {p : Progress S} :
    atBound limits p = true ↔ ∃ n, limits.stepBound = some n ∧ n ≤ p.steps := by
  unfold atBound
  cases limits.stepBound <;> simp

section Reason

variable [Scalar S] {limits : Limits S} {p : Progress S}

/-- An iteration has converged exactly if its last step succeeded and its norm is within the
tolerance. -/
theorem hasConverged_iff :
    hasConverged limits p = true ↔
      p.status = .success ∧ withinTolerance p.gradientNorm limits.tolerance = true := by
  rw [hasConverged, Bool.and_eq_true_iff, beq_iff_eq]

/-- When a reason **applies** to an iteration that is over. -/
def Applies (limits : Limits S) (p : Progress S) : StopReason → Prop
  | .converged => hasConverged limits p = true
  | .singularHessian => p.status = .singularHessian
  | .nonFinite => p.status = .numericalError
  | .stepBound => p.status = .success ∧ hasConverged limits p = false

/-- **The reason is the one that applies**, and no other one applies. -/
theorem reason_eq_iff {cause : StopReason} : reason limits p = cause ↔ Applies limits p cause := by
  unfold reason
  by_cases hc : hasConverged limits p = true
  · have hsuccess : p.status = .success := (hasConverged_iff.mp hc).1
    rw [if_pos hc]
    cases cause <;> simp [Applies, hc, hsuccess]
  · rw [if_neg hc]
    rw [Bool.not_eq_true] at hc
    cases hstatus : p.status <;> cases cause <;> simp [Applies, hc, hstatus]

/-- An iteration that is over for the reason of its bound has reached it. -/
theorem atBound_of_reason (hover : isOver limits p = true) (h : reason limits p = .stepBound) :
    atBound limits p = true := by
  obtain ⟨hsuccess, hc⟩ := reason_eq_iff.mp h
  unfold isOver at hover
  rw [hsuccess, hc] at hover
  exact hover

end Reason

/-! ## (2) The bound on the steps -/

variable [SingularValues S] {df ddf : Evaluator S E} {limits : Limits S}
variable {callback : Option (Callback S E)} {x : Value}

/-- **The bound is never exceeded**: if there is a bound, and it is not negative, then no stand of
the iteration has more steps. -/
theorem steps_le_of_reached {w₀ w : World S E} {p : Progress S} {n : Int} (hacc : Accepted limits)
    (hn : limits.stepBound = some n) (h : Reached df ddf limits callback x w₀ p w) :
    (p.steps : Int) ≤ n := by
  induction h with
  | start _ =>
    have hnonneg := hacc.2
    rw [hn] at hnonneg
    simpa using hnonneg
  | @advance p p' w w' hp hgo hadv ih =>
    obtain ⟨_, _, _, _, _, -, -, -, -, rfl⟩ := advance_eq_ok_iff.mp hadv
    -- an iteration that goes on has not reached its bound
    have hbelow : ¬ n ≤ p.steps := fun hle =>
      absurd (atBound_iff.mpr ⟨n, hn, hle⟩) (Bool.eq_false_iff.mp (isOver_eq_false_iff.mp hgo).2.2)
    show ((p.steps + 1 : Nat) : Int) ≤ n
    omega

/-- A loop with a bound is carried to its end by fuel for the steps that are left. -/
theorem loop_ne_none {n : Int} (hn : limits.stepBound = some n) (fuel : Nat) (p : Progress S)
    (w : World S E) (hfuel : n ≤ p.steps + fuel) :
    (loop df ddf limits callback x fuel p w).1 ≠ .ok none := by
  induction fuel generalizing p w with
  | zero =>
    -- no fuel is left because no step is left
    have hover : isOver limits p = true := by
      rw [isOver, atBound_iff.mpr ⟨n, hn, by omega⟩, Bool.or_true]
    rw [loop_of_isOver hover]
    exact nofun
  | succ fuel ih =>
    by_cases hover : isOver limits p = true
    · rw [loop_of_isOver hover]
      exact nofun
    · rw [loop_succ_of_not_isOver (Bool.eq_false_iff.mpr hover)]
      rcases hadv : advance df ddf limits callback x p w with ⟨cause | p', w'⟩
      · rw [Action.bind_of_error hadv]
        exact nofun
      · rw [Action.bind_of_ok hadv]
        obtain ⟨_, _, _, _, _, -, -, -, -, rfl⟩ := advance_eq_ok_iff.mp hadv
        refine ih _ _ ?_
        show n ≤ ((p.steps + 1 : Nat) : Int) + fuel
        omega

/-- A run with a bound is carried to its end by fuel for as many steps as the bound allows. -/
theorem run_ne_none {n : Int} (hn : limits.stepBound = some n) {fuel : Nat} (hfuel : n.toNat ≤ fuel)
    (w : World S E) : (run fuel df ddf limits callback x w).1 ≠ .ok none := by
  by_cases hacc : Accepted limits
  · rw [run_of_accepted hacc]
    rcases hnorm : gradientNorm df x w with ⟨cause | norm, w₁⟩
    · rw [Action.bind_of_error hnorm]
      exact nofun
    · rw [Action.bind_of_ok hnorm]
      rcases hloop : loop df ddf limits callback x fuel ⟨0, .success, norm, []⟩ w₁ with
        ⟨cause | _ | q, w₂⟩
      · rw [Action.bind_of_error hloop]
        exact nofun
      · have hstart : n ≤ ((0 : Nat) : Int) + fuel := by omega
        exact absurd (congrArg Prod.fst hloop) (loop_ne_none hn fuel _ w₁ hstart)
      · rw [Action.bind_of_ok hloop]
        exact nofun
  · rw [run_of_not_accepted hacc]
    exact nofun

/-! ## (3) Truthful results -/

/-- A result **tells truthfully** how its run ended. -/
structure Truthful (limits : Limits S) (result : Run S) : Prop where
  /-- It has converged exactly if the last step succeeded and the last norm is within the
  tolerance. -/
  converged : result.converged = true ↔
    result.final.status = .success ∧
    withinTolerance result.final.gradientNorm limits.tolerance = true
  /-- The tolerance is said to be satisfied exactly if the run has converged. -/
  satisfied : result.reason.message = "Gradient tolerance satisfied." ↔ result.converged = true
  /-- A singular Hessian is told of exactly if the last step met one. -/
  singular : result.reason.message = "Singular Hessian encountered." ↔
    result.final.status = .singularHessian
  /-- Values that are not finite are told of exactly if the last step met one. -/
  nonFinite : result.reason.message = "Non-finite values encountered." ↔
    result.final.status = .numericalError
  /-- The bound is told of exactly in all other cases, -/
  otherwise : result.reason.message = "Maximum iterations reached." ↔
    result.final.status = .success ∧ result.converged = false
  /-- and then there is a bound, and exactly as many steps were taken. -/
  reached : result.reason.message = "Maximum iterations reached." →
    ∃ n, limits.stepBound = some n ∧ (result.final.steps : Int) = n
  /-- No more steps are taken than the bound allows. -/
  bounded : ∀ n, limits.stepBound = some n → (result.final.steps : Int) ≤ n

/-- The message of a reason is told exactly if the reason applies. -/
theorem message_reason_iff {q : Progress S} (cause : StopReason) :
    (reason limits q).message = cause.message ↔ Applies limits q cause :=
  ⟨fun h => reason_eq_iff.mp (StopReason.message_injective h),
    fun h => congrArg StopReason.message (reason_eq_iff.mpr h)⟩

/-- Where an iteration is over its result is truthful. -/
theorem truthful_runOf {w₀ w : World S E} {q : Progress S} (hacc : Accepted limits)
    (hq : Reached df ddf limits callback x w₀ q w) (hover : isOver limits q = true) :
    Truthful limits (runOf limits x q) where
  converged := hasConverged_iff
  satisfied := message_reason_iff .converged
  singular := message_reason_iff .singularHessian
  nonFinite := message_reason_iff .nonFinite
  otherwise := message_reason_iff .stepBound
  reached := by
    intro h
    have hreason : reason limits q = .stepBound := StopReason.message_injective h
    obtain ⟨n, hn, hle⟩ := atBound_iff.mp (atBound_of_reason hover hreason)
    exact ⟨n, hn, Int.le_antisymm (steps_le_of_reached hacc hn hq) hle⟩
  bounded := fun _ hn => steps_le_of_reached hacc hn hq

/-- **The reason of a run is truthful and its bound is respected**, whatever evaluators and callback
do. Every run that returns has a truthful result. The last of its calls, under watch, asks for the
gradient whose norm it returns; nothing is touched after that, and if the evaluator leaves the point
alone then what the point held when the gradient was asked for is what it holds in the end. A run
with a bound is carried to its end by as much fuel as the bound allows steps. -/
theorem run_truthful (df ddf : Evaluator S E) (limits : Limits S) (callback : Option (Callback S E))
    (x : Value) (w : World S E) :
    (∀ fuel result w', run fuel df ddf limits callback x w = (.ok (some result), w') →
      Truthful limits result ∧ result.point = x ∧
      ∃ (calls : List (Call S)) (w₁ w₂ : World S E) (g : Ref),
        df x w₁ = (.ok (.matrix g), w₂) ∧ result.final.gradientNorm = (w₂.store.get g).norm ∧
        run fuel (df.watched .gradient) (ddf.watched .hessian) limits
            (callback.map Callback.watched) x (w.watched []) =
          (.ok (some result), w'.watched (calls ++
            [.asked .gradient x (w₁.held x) (some (w₂.store.get g))])) ∧
        w'.store = w₂.store ∧
        ((df x).Leaves x → ∀ m, w₁.held x = some m → w'.held x = some m)) ∧
    ∀ n, limits.stepBound = some n → ∀ fuel, n.toNat ≤ fuel →
      (run fuel df ddf limits callback x w).1 ≠ .ok none := by
  constructor
  · intro fuel result w' hrun
    obtain ⟨hacc, q, w₂, hq, hover, hsteps, rfl, rfl⟩ := run_eq_some_iff.mp hrun
    obtain ⟨calls, w₁, g, hdf, hnorm, hreached⟩ := hq.exists_watched
    refine ⟨truthful_runOf hacc hq hover, rfl, calls, w₁, w₂, g, hdf, hnorm, ?_, rfl, ?_⟩
    · exact run_eq_some_iff.mpr ⟨hacc, q, _, hreached, hover, hsteps, rfl, rfl⟩
    · intro hleaves m hm
      have hheld : w₂.held x = some m := hleaves.held_of_eq hdf hm
      cases x <;> exact hheld
  · intro n hn fuel hfuel
    exact run_ne_none hn hfuel w

/-! ### A run whose tolerance is no number -/

/-- A run from the point `(-3, -2)` that no norm can satisfy, with a bound of one step. -/
def boundedRun : Except Fault (Option (Run Float)) × World Float Unit :=
  run 1 pure (fun _ => pure (.matrix 1)) ⟨0.0 / 0.0, some 1, false⟩ none (.matrix 0)
    Newton.twoMatrices

/-- A run whose tolerance is no number takes the one step that it may take, and says so. Its
evaluator leaves the point alone, so that the gradient evaluated last is that of the point in the
end. -/
theorem run_truthful_of_no_number :
    ∃ result, boundedRun.1 = .ok (some result) ∧
      result.reason.message = "Maximum iterations reached." ∧
      result.converged = false ∧ result.final.steps = 1 ∧
      ∃ (w₁ w₂ : World Float Unit) (g : Ref),
        (pure (.matrix 0) : Action Float Unit Value) w₁ = (.ok (.matrix g), w₂) ∧
        result.final.gradientNorm = (w₂.store.get g).norm ∧
        ∀ m, w₁.held (.matrix 0) = some m → boundedRun.2.held (.matrix 0) = some m := by
  have hreason :
      (boundedRun.1.toOption.join.map fun result => result.reason) = some .stepBound := by
    decide +kernel
  obtain ⟨result, hrun, hstop⟩ := Action.exists_eq_of_map_eq_some hreason
  obtain ⟨htruthful, -, -, w₁, w₂, g, hlast, hnorm, -, -, hheld⟩ :=
    (run_truthful pure (fun _ => pure (.matrix 1)) ⟨0.0 / 0.0, some 1, false⟩
      none (.matrix 0) Newton.twoMatrices).1 1 result boundedRun.2 hrun
  have hmessage : result.reason.message = "Maximum iterations reached." := by rw [hstop]; rfl
  obtain ⟨n, hn, hsteps⟩ := htruthful.reached hmessage
  obtain rfl := Option.some.inj hn
  exact ⟨result, congrArg Prod.fst hrun, hmessage, (htruthful.otherwise.mp hmessage).2,
    Int.ofNat.inj hsteps, w₁, w₂, g, hlast, hnorm, hheld (Action.leaves_pure _ _)⟩

/-! ### An evaluator that overwrites the point -/

/-- The evaluator that answers with a copy of the point, and then overwrites the point with
zeros. -/
def erasing : Evaluator Float Unit
  | .matrix r => do
    let m ← Action.read r
    let answer ← Action.add m
    Action.write r (.zeros m.precision m.rows m.cols m.rows_pos m.cols_pos)
    return .matrix answer
  | .plain _ => Action.fail .badKind

/-- The point `a` of one double. -/
def pointOfOne (a : Float) : DenseMatrix Float :=
  .ofFn .double Nat.one_pos Nat.one_pos fun (_ _ : Fin 1) => a

/-- A run from the point `3` with the evaluator that erases it; every norm up to five is small
enough. -/
def erasedRun : Except Fault (Option (Run Float)) × World Float Unit :=
  run 0 erasing (fun _ => pure (.matrix 0)) ⟨5.0, none, false⟩ none (.matrix 0)
    ⟨⟨#[pointOfOne 3.0]⟩, .initial, .initial, ()⟩

/-- **The norm is not that of the gradient in the end** where the evaluator overwrites the point:
the run converges with the norm three of the gradient at `3`, and leaves the point `0`, where the
gradient has the norm zero. -/
theorem gradientNorm_ne_of_erasing :
    ∃ result, erasedRun.1 = .ok (some result) ∧ result.converged = true ∧
      result.final.gradientNorm = 3.0 ∧
      (erasedRun.2.held result.point).map (·.entries) = some [0.0] ∧
      (gradientNorm erasing result.point erasedRun.2).1 = .ok 0.0 := by
  have hend : (erasedRun.1.toOption.join.map fun result =>
      (result.converged, result.final.gradientNorm)) = some (true, 3.0) := by
    decide +kernel
  obtain ⟨result, hrun, hresult⟩ := Action.exists_eq_of_map_eq_some hend
  obtain ⟨hconverged, hnorm⟩ := Prod.mk.inj hresult
  obtain ⟨-, q, -, -, -, -, rfl, -⟩ := run_eq_some_iff.mp hrun
  have hzero : (gradientNorm erasing (.matrix 0) erasedRun.2).1 = .ok 0.0 :=
    Action.eq_ok_of_toOption (by decide +kernel)
  have hheld : (erasedRun.2.held (.matrix 0)).map (·.entries) = some [0.0] := by decide +kernel
  exact ⟨_, congrArg Prod.fst hrun, hconverged, hnorm, hheld, hzero⟩

end Iteration

end NewtonRaphson
