import NewtonRaphson.Proofs.Iteration.Orbit
import NewtonRaphson.Proofs.Iteration.PlainLoop

/-! # Iterations that are resumed

An iteration with a bound may be taken up again from the point where it ended. If it ended without a
failure, the two parts do what one iteration does that has both bounds together; if it ended with a
failure, the second part meets the same failure in its first step.

* **`Iteration.runFor`** — the iteration with a bound, on fuel for as many steps;
  `Iteration.run_eq_runFor` says that more fuel changes nothing.
* **`Iteration.EndsAt.resume`** — where the second part ends on the orbit of its start, the whole
  ends on the orbit of the first start.
* **`Iteration.EndsAt.again`** — after a failure the second part ends one step later, at the same
  point.
* **`Iteration.Joins`** — a result that puts those of two parts together.
* **`Iteration.run_resumes`** — the law of resumption. -/

namespace NewtonRaphson

variable {S E : Type} [SingularValues S]

namespace Iteration

/-! ## (1) Iterations with a bound -/

/-- The limits of a tolerance and a bound of `n` steps. -/
def limitsFor (tolerance : S) (keepHistory : Bool) (n : Nat) : Limits S :=
  ⟨tolerance, some (n : Int), keepHistory⟩

/-- The **iteration with a bound** of `n` steps, on fuel for all of them. -/
def runFor (df ddf : Evaluator S E) (tolerance : S) (keepHistory : Bool)
    (callback : Option (Callback S E)) (x : Value) (n : Nat) : Action S E (Option (Run S)) :=
  run n df ddf (limitsFor tolerance keepHistory n) callback x

/-- What the callback of such an iteration is told, in the order of the calls. -/
def toldFor (df ddf : Evaluator S E) (tolerance : S) (keepHistory : Bool)
    (callback : Option (Callback S E)) (x : Value) (n : Nat) (w : World S E) :
    List (Nat × Value × Option (DenseMatrix S) × Status) :=
  toldIn n df ddf (limitsFor tolerance keepHistory n) callback x w

section Bound

variable {tolerance : S} {keepHistory : Bool}

/-- Limits with a bound are accepted if the tolerance is not below zero. -/
theorem accepted_limitsFor (htolerance : Scalar.lt tolerance Scalar.zero = false)
    (keepHistory : Bool) (n : Nat) : Accepted (limitsFor tolerance keepHistory n) := by
  refine ⟨htolerance, ?_⟩
  show decide ((n : Int) < 0) = false
  rw [decide_eq_false_iff_not]
  omega

/-- **Fuel for the bound is enough**: more of it changes nothing. -/
theorem run_eq_runFor {df ddf : Evaluator S E} {callback : Option (Callback S E)} {x : Value}
    (htolerance : Scalar.lt tolerance Scalar.zero = false) {n fuel : Nat} (hfuel : n ≤ fuel) :
    run fuel df ddf (limitsFor tolerance keepHistory n) callback x =
      runFor df ddf tolerance keepHistory callback x n := by
  funext w
  have hacc := accepted_limitsFor htolerance keepHistory n
  induction fuel, hfuel using Nat.le_induction with
  | base => rfl
  | succ fuel hfuel ih =>
    rw [← ih, run_of_accepted hacc, run_of_accepted hacc]
    rcases hnorm : gradientNorm df x w with ⟨cause | norm, w₁⟩
    · rw [Action.bind_of_error hnorm, Action.bind_of_error hnorm]
    · rw [Action.bind_of_ok hnorm, Action.bind_of_ok hnorm, Action.bind_apply, Action.bind_apply,
        loop_succ_fuel
        (loop_ne_none rfl fuel _ w₁ (by show (n : Int) ≤ ((0 : Nat) : Int) + fuel; omega))]

/-- An iteration with a bound goes on from a standing exactly if that came of a success, is above
the tolerance, and the bound is not reached. -/
theorem Standing.isOver_limitsFor_eq_false_iff {n j : Nat} {s : Standing S} :
    s.isOver (limitsFor tolerance keepHistory n) j = false ↔
      s.status = .success ∧ withinTolerance s.norm tolerance = false ∧ j < n := by
  rw [Standing.isOver, isOver_eq_false_iff]
  refine and_congr_right fun _ => and_congr_right fun _ => ?_
  show decide ((n : Int) ≤ (j : Int)) = false ↔ j < n
  rw [decide_eq_false_iff_not]
  omega

end Bound

/-! ## (2) Ends on the orbit -/

section Ends

variable {G H : DenseMatrix S → Except Fault (DenseMatrix S)} {factor tolerance : S}
  {keepHistory : Bool}
variable {x : DenseMatrix S} {s s' : Standing S} {m k n j : Nat}

/-- What goes on with a bound goes on with a greater one. -/
theorem goesOn_add (hgo : ∀ i < n, ∃ t, orbit G H factor x i = some t ∧
      t.isOver (limitsFor tolerance keepHistory m) i = false) (k : Nat) :
    ∀ i < n, ∃ t, orbit G H factor x i = some t ∧
      t.isOver (limitsFor tolerance keepHistory (m + k)) i = false := by
  intro i hi
  obtain ⟨t, ht, hnot⟩ := hgo i hi
  obtain ⟨hsuccess, habove, hbelow⟩ := Standing.isOver_limitsFor_eq_false_iff.mp hnot
  exact ⟨t, ht, Standing.isOver_limitsFor_eq_false_iff.mpr ⟨hsuccess, habove, by omega⟩⟩

/-- No iteration with a bound ends behind it. -/
theorem EndsAt.le_bound (h : EndsAt G H factor (limitsFor tolerance keepHistory m) x n s) :
    n ≤ m := by
  cases n with
  | zero => exact Nat.zero_le m
  | succ n =>
    obtain ⟨t, -, hnot⟩ := h.goesOn n (Nat.lt_succ_self n)
    exact (Standing.isOver_limitsFor_eq_false_iff.mp hnot).2.2

/-- An iteration that ends with a success above the tolerance has used up its bound. -/
theorem EndsAt.eq_bound (h : EndsAt G H factor (limitsFor tolerance keepHistory m) x n s)
    (hs : s.status = .success) (habove : withinTolerance s.norm tolerance = false) : n = m := by
  refine Nat.le_antisymm h.le_bound (Nat.le_of_not_lt fun hlt => ?_)
  have hgo : s.isOver (limitsFor tolerance keepHistory m) n = false :=
    Standing.isOver_limitsFor_eq_false_iff.mpr ⟨hs, habove, hlt⟩
  rw [h.isEnd] at hgo
  cases hgo

/-- **Where the second part ends, the whole ends.** After a first part that ended with a success,
the second part ends after `j` steps exactly if the iteration with both bounds together ends `j`
steps after the first part. -/
theorem EndsAt.resume (h : EndsAt G H factor (limitsFor tolerance keepHistory m) x n s)
    (hs : s.status = .success) :
    EndsAt G H factor (limitsFor tolerance keepHistory k) s.point j s' ↔
      EndsAt G H factor (limitsFor tolerance keepHistory (m + k)) x (n + j) s' := by
  have hstands : orbit G H factor s.point 0 = some s :=
    (orbit_add h.stands hs 0).symm.trans h.stands
  cases hwithin : withinTolerance s.norm tolerance with
  | true =>
    -- the first part has converged: neither the second part nor the whole takes another step
    have hover (limit i : Nat) : s.isOver (limitsFor tolerance keepHistory limit) i = true :=
      isOver_of_hasConverged (hasConverged_iff.mpr ⟨hs, hwithin⟩)
    have hsecond : EndsAt G H factor (limitsFor tolerance keepHistory k) s.point 0 s :=
      ⟨hstands, hover k 0, nofun⟩
    have hwhole : EndsAt G H factor (limitsFor tolerance keepHistory (m + k)) x n s :=
      ⟨h.stands, hover (m + k) n, goesOn_add h.goesOn k⟩
    constructor
    · intro hend
      obtain ⟨rfl, rfl⟩ := hend.unique hsecond
      exact hwhole
    · intro hend
      obtain ⟨hsteps, rfl⟩ := hend.unique hwhole
      obtain rfl : j = 0 := by omega
      exact hsecond
  | false =>
    -- the first part has used up its bound: what is over is the same, `n` steps later
    obtain rfl := h.eq_bound hs hwithin
    have hshift (t : Standing S) (i : Nat) :
        t.isOver (limitsFor tolerance keepHistory (n + k)) (n + i) =
          t.isOver (limitsFor tolerance keepHistory k) i := by
      rw [Bool.eq_iff_iff, ← not_iff_not, Bool.not_eq_true, Bool.not_eq_true,
        Standing.isOver_limitsFor_eq_false_iff, Standing.isOver_limitsFor_eq_false_iff,
        Nat.add_lt_add_iff_left]
    constructor
    · rintro ⟨hlast, hover, hgo⟩
      refine ⟨(orbit_add h.stands hs j).trans hlast, (hshift s' j).trans hover, fun i hi => ?_⟩
      by_cases hbefore : i < n
      · exact goesOn_add h.goesOn k i hbefore
      · obtain ⟨i, rfl⟩ := Nat.exists_eq_add_of_le (Nat.le_of_not_lt hbefore)
        obtain ⟨t, ht, hnot⟩ := hgo i (by omega)
        exact ⟨t, (orbit_add h.stands hs i).trans ht, (hshift t i).trans hnot⟩
    · rintro ⟨hlast, hover, hgo⟩
      refine ⟨(orbit_add h.stands hs j).symm.trans hlast, (hshift s' j).symm.trans hover,
        fun i hi => ?_⟩
      obtain ⟨t, ht, hnot⟩ := hgo (n + i) (by omega)
      exact ⟨t, (orbit_add h.stands hs i).symm.trans ht, (hshift t i).symm.trans hnot⟩

/-- **After a failure the next step fails again**: an iteration that is taken up at a point where a
step failed ends after one step, with the same status and at the same point. -/
theorem EndsAt.again (h : EndsAt G H factor (limitsFor tolerance keepHistory m) x n s)
    (hs : s.status ≠ .success) (hk : 0 < k) :
    EndsAt G H factor (limitsFor tolerance keepHistory k) s.point 1 s := by
  cases n with
  | zero =>
    -- no step was taken, so none failed
    obtain ⟨_, -, rfl⟩ := standing?_eq_some_iff.mp h.stands
    exact absurd rfl hs
  | succ n =>
    obtain ⟨t, ht, hnot⟩ := h.goesOn n (Nat.lt_succ_self n)
    obtain ⟨hsuccess, habove, -⟩ := Standing.isOver_limitsFor_eq_false_iff.mp hnot
    have hpoint : s.point = t.point := point_of_next? ((orbit_succ ht).symm.trans h.stands) hs
    rw [hpoint]
    refine ⟨(orbit_add ht hsuccess 1).symm.trans h.stands, isOver_of_status hs, fun i hi => ?_⟩
    obtain rfl : i = 0 := by omega
    exact ⟨t, (orbit_add ht hsuccess 0).symm.trans ht,
      Standing.isOver_limitsFor_eq_false_iff.mpr ⟨hsuccess, habove, hk⟩⟩

end Ends

/-! ## (3) The law -/

/-- The result `whole` **joins** the results of two runs: it ends as the second one does, its steps
are those of both, and so is its history. -/
structure Joins (first second whole : Run S) : Prop where
  point : whole.point = second.point
  status : whole.final.status = second.final.status
  converged : whole.converged = second.converged
  gradientNorm : whole.final.gradientNorm = second.final.gradientNorm
  message : whole.reason.message = second.reason.message
  steps : whole.final.steps = first.final.steps + second.final.steps
  history : whole.final.history = first.final.history ++ second.final.history

/-- The results of the parts are joined by that of the whole where the orbit of the second start
goes on with that of the first one. -/
theorem joins_of_orbit {G H : DenseMatrix S → Except Fault (DenseMatrix S)} {factor tolerance : S}
    {keepHistory : Bool} {r : Ref} {x : DenseMatrix S} {s s' : Standing S} {n : Nat} (m k j : Nat)
    (hs : orbit G H factor x n = some s) (hsuccess : s.status = .success) :
    Joins
      (runOf (limitsFor tolerance keepHistory m) (.matrix r)
        (progressOf G H factor keepHistory x n s))
      (runOf (limitsFor tolerance keepHistory k) (.matrix r)
        (progressOf G H factor keepHistory s.point j s'))
      (runOf (limitsFor tolerance keepHistory (m + k)) (.matrix r)
        (progressOf G H factor keepHistory x (n + j) s')) where
  point := rfl
  status := rfl
  converged := rfl
  gradientNorm := rfl
  message := rfl
  steps := rfl
  history := by
    cases keepHistory with
    | false => rfl
    | true => exact pathOf_add hs hsuccess j

/-- **The law of resumption.** Let the derivatives be pure, the callback quiet, and the tolerance
not below zero. Let an iteration with a bound of `m` steps return, and be taken up again with a
bound of `k` steps.

If the first part ended with a success, be it that it converged or that its bound was reached, then
the second part returns exactly if the iteration with a bound of `m + k` steps from the first start
does; and what this one returns joins what the two parts return, it leaves the point with what the
second part leaves there, and its callback is told what theirs are told, with the steps of the first
part added to the numbers of the second.

If the first part ended with a failure, then a second part that may take a step takes exactly one,
ends with the same status, and leaves the point alone. -/
theorem run_resumes {df ddf : Evaluator S E} {G H : DenseMatrix S → Except Fault (DenseMatrix S)}
    (hdf : df.Computes G) (hddf : ddf.Computes H) {callback : Option (Callback S E)} {r : Ref}
    (hcallback : ∀ report ∈ callback, Quiet report (.matrix r)) {w w₁ : World S E}
    (hr : r < w.store.size) {tolerance : S} (htolerance : Scalar.lt tolerance Scalar.zero = false)
    (keepHistory : Bool) (m k : Nat) {first : Run S}
    (hfirst : runFor df ddf tolerance keepHistory callback (.matrix r) m w =
      (.ok (some first), w₁)) :
    (first.final.status = .success →
      ((∃ second, (runFor df ddf tolerance keepHistory callback (.matrix r) k w₁).1 =
        .ok (some second)) ↔
        ∃ whole, (runFor df ddf tolerance keepHistory callback (.matrix r) (m + k) w).1 =
        .ok (some whole)) ∧
      ∀ second whole w₂ w₃,
        runFor df ddf tolerance keepHistory callback (.matrix r) k w₁ = (.ok (some second), w₂) →
        runFor df ddf tolerance keepHistory callback (.matrix r) (m + k) w =
        (.ok (some whole), w₃) → Joins first second whole ∧ w₃.store.get? r = w₂.store.get? r ∧
          toldFor df ddf tolerance keepHistory callback (.matrix r) (m + k) w =
            toldFor df ddf tolerance keepHistory callback (.matrix r) m w ++
              (toldFor df ddf tolerance keepHistory callback (.matrix r) k w₁).map
                fun told => (first.final.steps + told.1, told.2)) ∧
    (first.final.status ≠ .success → 0 < k →
      ∃ second w₂,
        runFor df ddf tolerance keepHistory callback (.matrix r) k w₁ = (.ok (some second), w₂) ∧
        second.final.steps = 1 ∧ second.final.status = first.final.status ∧
        w₂.store.get? r = w₁.store.get? r) := by
  have hx : w.store.get? r = some (w.store.get r) := Store.get?_of_lt hr
  obtain ⟨n, s, hend, -, rfl, hx₁, hsettings, htold⟩ :=
    exists_endsAt_of_run hdf hddf hcallback hx hfirst
  -- the settings are kept, so the second part follows an orbit of the same derivatives and factor
  have hfactor : w₁.settings.factor = w.settings.factor := congrArg Settings.factor hsettings
  have hreturns {n' : Nat} {s' : Standing S}
      (hend' : EndsAt G H w.settings.factor (limitsFor tolerance keepHistory k) s.point n' s') :
      ∃ second w₂, runFor df ddf tolerance keepHistory callback (.matrix r) k w₁ =
        (.ok (some second), w₂) := by
    have hend₁ := hend'
    rw [← hfactor] at hend₁
    exact exists_run_of_endsAt hdf hddf hcallback hx₁ (accepted_limitsFor htolerance _ k) hend₁
      hend'.le_bound
  constructor
  · intro hsuccess
    constructor
    · constructor
      · rintro ⟨second, hsecond⟩
        obtain ⟨j, s', hend₂, -⟩ :=
          exists_endsAt_of_run hdf hddf hcallback hx₁ (Prod.ext hsecond rfl)
        rw [hfactor] at hend₂
        have hwhole := (hend.resume hsuccess).mp hend₂
        obtain ⟨whole, w₃, hrun⟩ := exists_run_of_endsAt hdf hddf hcallback hx
          (accepted_limitsFor htolerance _ (m + k)) hwhole hwhole.le_bound
        exact ⟨whole, congrArg Prod.fst hrun⟩
      · rintro ⟨whole, hwhole⟩
        obtain ⟨N, s', hend₃, -⟩ := exists_endsAt_of_run hdf hddf hcallback hx (Prod.ext hwhole rfl)
        -- the whole does not end before the first part
        obtain ⟨j, rfl⟩ := Nat.exists_eq_add_of_le (hend₃.le (goesOn_add hend.goesOn k))
        obtain ⟨second, w₂, hrun⟩ := hreturns ((hend.resume hsuccess).mpr hend₃)
        exact ⟨second, congrArg Prod.fst hrun⟩
    · intro second whole w₂ w₃ hsecond hwhole
      obtain ⟨j, s₂, hend₂, -, rfl, hx₂, -, htold₂⟩ :=
        exists_endsAt_of_run hdf hddf hcallback hx₁ hsecond
      obtain ⟨N, s₃, hend₃, -, rfl, hx₃, -, htold₃⟩ :=
        exists_endsAt_of_run hdf hddf hcallback hx hwhole
      rw [hfactor] at hend₂ htold₂ ⊢
      -- there is one end of the whole, and it is that of the second part
      obtain ⟨rfl, rfl⟩ := hend₃.unique ((hend.resume hsuccess).mp hend₂)
      refine ⟨joins_of_orbit m k j hend.stands hsuccess, hx₃.trans hx₂.symm, ?_⟩
      rw [toldFor, toldFor, toldFor, htold, htold₂, htold₃]
      cases callback with
      | none => rfl
      | some report => exact tellingsOf_add hend.stands hsuccess r j
  · intro hfailure hk
    have hagain := hend.again hfailure hk
    obtain ⟨second, w₂, hsecond⟩ := hreturns hagain
    obtain ⟨n', s', hend₂, -, rfl, hx₂, -⟩ := exists_endsAt_of_run hdf hddf hcallback hx₁ hsecond
    rw [hfactor] at hend₂
    obtain ⟨rfl, rfl⟩ := hend₂.unique hagain
    exact ⟨_, w₂, hsecond, rfl, rfl, hx₂.trans hx₁.symm⟩

/-! ### Steps that go half of the way -/

/-- Twice the Hessian of half the square of the norm: each step with it goes half of the way to
zero. -/
def doubledHessian : Evaluator Float Unit := .ofFunction fun _ => .ok (unit.scale 2.0)

theorem computes_doubledHessian : doubledHessian.Computes fun _ => .ok (unit.scale 2.0) :=
  Evaluator.computes_ofFunction _

/-- The callback that does nothing. -/
def silent : Callback Float Unit := fun _ _ _ => pure ()

/-- The iteration that goes half of the way with each step, and ends when less than a fifth is
left. -/
def halvingFor (n : Nat) : Action Float Unit (Option (Run Float)) :=
  runFor pointGradient doubledHessian 0.2 true (some silent) (.matrix 0) n

/-- A bound of one step is reached, and a further bound of three is not, since the second part
converges after two steps: together they do what an iteration with a bound of four steps does in
three. -/
theorem run_resumes_of_halving :
    ∃ first second whole w₁, halvingFor 1 unitWorld = (.ok (some first), w₁) ∧
      (halvingFor 3 w₁).1 = .ok (some second) ∧ (halvingFor (1 + 3) unitWorld).1 =
      .ok (some whole) ∧ Joins first second whole ∧ first.final.steps = 1 ∧ second.final.steps = 2 ∧
      whole.final.steps = 3 ∧ whole.converged = true := by
  have hfirst : ((halvingFor 1 unitWorld).1.toOption.join.map
      fun result => (result.final.steps, result.final.status)) = some (1, .success) := by
    decide +kernel
  have hsecond : ((halvingFor 3 (halvingFor 1 unitWorld).2).1.toOption.join.map
      fun result => (result.final.steps, result.converged)) = some (2, true) := by decide +kernel
  obtain ⟨first, hfirst, hfinal⟩ := Action.exists_eq_of_map_eq_some hfirst
  obtain ⟨second, hsecond, hend⟩ := Action.exists_eq_of_map_eq_some hsecond
  obtain ⟨hone, hsuccess⟩ := Prod.mk.inj hfinal
  obtain ⟨htwo, hconverged⟩ := Prod.mk.inj hend
  have hquiet : ∀ report ∈ some silent, Quiet report (.matrix 0) := by
    rintro report ⟨rfl⟩
    exact ⟨fun _ _ _ => rfl, fun _ _ => Action.leaves_pure _ _, fun _ _ _ => rfl⟩
  obtain ⟨hresumed, -⟩ := run_resumes (Evaluator.computes_ofFunction .ok)
    (Evaluator.computes_ofFunction fun _ => .ok (unit.scale 2.0)) hquiet
    (show 0 < unitWorld.store.size from Nat.one_pos) (by decide +kernel) true 1 3 hfirst
  obtain ⟨hreturns, hjoins⟩ := hresumed hsuccess
  obtain ⟨whole, hwhole⟩ := hreturns.mp ⟨second, congrArg Prod.fst hsecond⟩
  obtain ⟨hjoined, -⟩ := hjoins second whole _ _ hsecond (Prod.ext hwhole rfl)
  refine ⟨first, second, whole, _, hfirst, congrArg Prod.fst hsecond, hwhole, hjoined,
    hone, htwo, ?_, hjoined.converged.trans hconverged⟩
  rw [hjoined.steps, hone, htwo]

end Iteration

end NewtonRaphson
