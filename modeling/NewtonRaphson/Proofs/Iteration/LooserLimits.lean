import NewtonRaphson.Proofs.Iteration.Resumption
import NewtonRaphson.Proofs.OrderedScalar.Transitive

/-! # Iterations with looser limits

A greater tolerance or a smaller bound only cuts an iteration off earlier: up to there both do the
same.

* **`Iteration.Looser`** — limits that end an iteration wherever others do.
* **`Iteration.Reached.looser`** — an iteration with looser limits has come to the same stand, or
  was over at one before it; this holds of all evaluators and callbacks, since both iterations start
  in one world.
* **`Iteration.run_of_same_point`** — a run of pure evaluators depends on no more of the world than
  what the point holds, and the factor.
* **`Iteration.run_looser`** — the run with looser limits returns the first part of the run with
  others. -/

namespace NewtonRaphson

variable {S E : Type}

/-- A norm within a tolerance is within every greater one. -/
theorem withinTolerance_of_le [Scalar S] [TransitiveScalar S] {norm tolerance greater : S}
    (h : withinTolerance norm tolerance = true) (hle : Scalar.le tolerance greater = true) :
    withinTolerance norm greater = true :=
  TransitiveScalar.le_trans h hle

namespace Iteration

/-! ## (1) Looser limits -/

/-- Limits are **looser** than others if their tolerance is not smaller and their bound not greater,
where no bound is greater than any. -/
structure Looser [Scalar S] (loose strict : Limits S) : Prop where
  tolerance : Scalar.le strict.tolerance loose.tolerance = true
  stepBound : ∀ m ∈ strict.stepBound, ∃ k ∈ loose.stepBound, k ≤ m
  keepHistory : loose.keepHistory = strict.keepHistory

/-- Where limits end an iteration, looser ones do. -/
theorem Looser.isOver [Scalar S] [TransitiveScalar S] {loose strict : Limits S}
    (h : Looser loose strict) {p : Progress S} (hover : isOver strict p = true) :
    isOver loose p = true := by
  refine Bool.of_not_eq_false fun hgo => Bool.eq_false_iff.mp (isOver_eq_false_iff.mpr ?_) hover
  obtain ⟨hsuccess, habove, hbelow⟩ := isOver_eq_false_iff.mp hgo
  refine ⟨hsuccess, Bool.eq_false_iff.mpr fun hwithin => ?_,
    Bool.eq_false_iff.mpr fun hreached => ?_⟩
  · exact Bool.eq_false_iff.mp habove (withinTolerance_of_le hwithin h.tolerance)
  · obtain ⟨m, hm, hsteps⟩ := atBound_iff.mp hreached
    obtain ⟨k, hk, hkm⟩ := h.stepBound m hm
    exact Bool.eq_false_iff.mp hbelow (atBound_iff.mpr ⟨k, hk, hkm.trans hsteps⟩)

section Stands

variable [SingularValues S] {df ddf : Evaluator S E} {limits loose strict : Limits S}
variable {callback : Option (Callback S E)} {x : Value} {w w' : World S E} {p : Progress S}

/-- Of its limits an advance looks at nothing but whether the history is wanted. -/
theorem advance_congr (h : loose.keepHistory = strict.keepHistory) :
    advance df ddf loose callback x p = advance df ddf strict callback x p := by
  unfold advance
  rw [h]

/-- A history that is kept has one entry for each step. -/
theorem Reached.length_history (h : Reached df ddf limits callback x w p w') :
    p.history.length = if limits.keepHistory then p.steps else 0 := by
  induction h with
  | start _ => exact (ite_self 0).symm
  | @advance p p' w₁ w₂ _ _ hadv ih =>
    obtain ⟨_, _, _, _, _, -, -, -, -, rfl⟩ := advance_eq_ok_iff.mp hadv
    rw [List.length_append, ih, kept]
    cases limits.keepHistory <;> rfl

/-- **An iteration with looser limits comes to the same stand, or was over before it**, after a
success and with the first part of the history. -/
theorem Reached.looser (hlooser : Looser loose strict)
    (h : Reached df ddf strict callback x w p w') :
    Reached df ddf loose callback x w p w' ∨
      ∃ q w₁, Reached df ddf loose callback x w q w₁ ∧ Iteration.isOver loose q = true ∧
        q.steps < p.steps ∧ q.status = .success ∧ q.history <+: p.history := by
  induction h with
  | start hnorm => exact .inl (.start hnorm)
  | @advance p p' w₁ w₂ hp hgo hadv ih =>
    have hadv' : Iteration.advance df ddf loose callback x p w₁ = (.ok p', w₂) := by
      rw [advance_congr hlooser.keepHistory, hadv]
    obtain ⟨_, _, _, _, _, -, -, -, -, rfl⟩ := advance_eq_ok_iff.mp hadv
    rcases ih with hsame | ⟨q, w₃, hq, hover, hsteps, hsuccess, hhistory⟩
    · cases hover : Iteration.isOver loose p with
      | false => exact .inl (hsame.advance hover hadv')
      | true =>
        -- the other limits went on from here, so the last step succeeded
        exact .inr ⟨p, w₁, hsame, hover, Nat.lt_succ_self _, (isOver_eq_false_iff.mp hgo).1,
          List.prefix_append _ _⟩
    · exact .inr ⟨q, w₃, hq, hover, Nat.lt_succ_of_lt hsteps, hsuccess,
        hhistory.trans (List.prefix_append _ _)⟩

/-- A first part of a history is as long as the iteration has taken steps, if the history is
kept. -/
theorem Reached.history_eq_take {q : Progress S} {w₁ : World S E}
    (hkeep : loose.keepHistory = strict.keepHistory) (hq : Reached df ddf loose callback x w q w₁)
    (hp : Reached df ddf strict callback x w p w') (h : q.history <+: p.history) :
    q.history = p.history.take q.steps := by
  have hlength := hq.length_history
  have hlength' := hp.length_history
  rw [← hkeep] at hlength'
  cases hkept : loose.keepHistory with
  | false =>
    rw [hkept] at hlength'
    rw [List.eq_nil_of_length_eq_zero hlength'] at h ⊢
    rw [List.prefix_nil.mp h, List.take_nil]
  | true =>
    rw [hkept, if_pos rfl] at hlength
    rw [← hlength]
    exact List.prefix_iff_eq_take.mp h

/-! ## (2) Runs of pure evaluators from the same point -/

/-- **A run of pure evaluators depends on the point and the factor only**: from a point that holds
the same, in a world with the same factor, it takes the same steps to the same end. -/
theorem run_of_same_point {G H : DenseMatrix S → Except Fault (DenseMatrix S)} (hdf : df.Computes G)
    (hddf : ddf.Computes H) {callback' : Option (Callback S E)} {r q : Ref}
    (hcallback : ∀ report ∈ callback, Quiet report (.matrix r))
    (hcallback' : ∀ report ∈ callback', Quiet report (.matrix q)) {v : World S E}
    (hr : r < w.store.size) (hsame : v.store.get? q = w.store.get? r)
    (hfactor : v.settings.factor = w.settings.factor) {fuel : Nat} {result : Run S}
    (hrun : run fuel df ddf limits callback (.matrix r) w = (.ok (some result), w')) :
    ∃ v', run fuel df ddf limits callback' (.matrix q) v =
        (.ok (some { result with point := .matrix q }), v') ∧
      v'.store.get? q = w'.store.get? r := by
  have hx : w.store.get? r = some (w.store.get r) := Store.get?_of_lt hr
  have hacc : Accepted limits := (run_eq_some_iff.mp hrun).1
  obtain ⟨n, s, hend, hfuel, rfl, hlast, -⟩ := exists_endsAt_of_run hdf hddf hcallback hx hrun
  rw [← hfactor] at hend
  obtain ⟨result', v', hrun'⟩ :=
    exists_run_of_endsAt hdf hddf hcallback' (hsame.trans hx) hacc hend hfuel
  obtain ⟨n', s', hend', -, rfl, hlast', -⟩ :=
    exists_endsAt_of_run hdf hddf hcallback' (hsame.trans hx) hrun'
  -- both runs end where the limits end the one orbit
  obtain ⟨rfl, rfl⟩ := hend.unique hend'
  rw [hfactor] at hrun'
  exact ⟨v', hrun', hlast'.trans hlast.symm⟩

end Stands

/-! ## (3) The law -/

/-- The result `second` is that of an iteration which was **cut off** where `first` may have gone
on: it took no more steps, has the first part of the history, and ended with a success unless it
took as many steps. -/
structure CutsOff (first second : Run S) : Prop where
  steps : second.final.steps ≤ first.final.steps
  history : second.final.history = first.final.history.take second.final.steps
  status : second.final.steps < first.final.steps → second.final.status = .success
  same : second.final.steps = first.final.steps →
    second.final.status = first.final.status ∧ second.final.gradientNorm = first.final.gradientNorm

variable [SingularValues S] [TransitiveScalar S] {df ddf : Evaluator S E}

/-- **Looser limits cut an iteration off.** Let the derivatives be pure and the callbacks quiet, and
let an iteration return. Then an iteration with looser limits, from a point that holds the same in a
world with the same factor, returns too. It takes no more steps; its history, with one entry for
each of them, is the first part of the other one; its last step succeeded if it took fewer; and if
it took as many, it ends with the same status and the same norm of the gradient, at the same
point. -/
theorem run_looser {G H : DenseMatrix S → Except Fault (DenseMatrix S)} (hdf : df.Computes G)
    (hddf : ddf.Computes H) {loose strict : Limits S} (hlooser : Looser loose strict)
    (hacc : Accepted loose) {callback callback' : Option (Callback S E)} {r q : Ref}
    (hcallback : ∀ report ∈ callback, Quiet report (.matrix r))
    (hcallback' : ∀ report ∈ callback', Quiet report (.matrix q)) {w v w₁ : World S E}
    (hr : r < w.store.size) (hsame : v.store.get? q = w.store.get? r)
    (hfactor : v.settings.factor = w.settings.factor) {fuel : Nat} {first : Run S}
    (hfirst : run fuel df ddf strict callback (.matrix r) w = (.ok (some first), w₁)) :
    ∃ second v₁, run fuel df ddf loose callback' (.matrix q) v = (.ok (some second), v₁) ∧
      CutsOff first second ∧
      second.final.history.length = (if loose.keepHistory then second.final.steps else 0) ∧
      (second.final.steps = first.final.steps → v₁.store.get? q = w₁.store.get? r) := by
  obtain ⟨v₂, hrun, hlast⟩ :=
    run_of_same_point hdf hddf hcallback hcallback' hr hsame hfactor hfirst
  obtain ⟨-, p, v₃, hp, hover, hfuel, hfinal, rfl⟩ := run_eq_some_iff.mp hrun
  obtain rfl : first.final = p := congrArg Run.final hfinal
  rcases hp.looser hlooser with hreached | ⟨c, v₄, hreached, hover', hsteps, hsuccess, hhistory⟩
  · refine ⟨_, _, run_eq_some_iff.mpr ⟨hacc, _, v₃, hreached, hlooser.isOver hover, hfuel,
      rfl, rfl⟩, ?_, hreached.length_history, fun _ => hlast⟩
    exact ⟨Nat.le_refl _, hreached.history_eq_take hlooser.keepHistory hp (List.prefix_refl _),
      fun hlt => absurd hlt (Nat.lt_irrefl _), fun _ => ⟨rfl, rfl⟩⟩
  · have hne : c.steps ≠ first.final.steps := Nat.ne_of_lt hsteps
    refine ⟨_, _, run_eq_some_iff.mpr
      ⟨hacc, c, v₄, hreached, hover', Nat.le_of_lt (hsteps.trans_le hfuel), rfl, rfl⟩, ?_,
      hreached.length_history, fun heq => absurd heq hne⟩
    exact ⟨Nat.le_of_lt hsteps, hreached.history_eq_take hlooser.keepHistory hp hhistory,
      fun _ => hsuccess, fun heq => absurd heq hne⟩

/-- Halving steps from one end after three of them within a fifth, without a bound; within three
fifths, and with room for five, they end after the first. -/
theorem run_looser_of_halving :
    ∃ first second w₁ v₁,
      run 4 pointGradient doubledHessian ⟨0.2, none, true⟩ none (.matrix 0) unitWorld =
        (.ok (some first), w₁) ∧
      run 4 pointGradient doubledHessian ⟨0.6, some 5, true⟩ (some silent) (.matrix 0) unitWorld =
        (.ok (some second), v₁) ∧
      CutsOff first second ∧ first.final.steps = 3 ∧ second.final.steps = 1 ∧
      second.final.history.length = 1 := by
  have hfirst : ((run 4 pointGradient doubledHessian ⟨0.2, none, true⟩ none (.matrix 0)
      unitWorld).1.toOption.join.map fun result => result.final.steps) = some 3 := by decide +kernel
  have hsecond : ((run 4 pointGradient doubledHessian ⟨0.6, some 5, true⟩ (some silent) (.matrix 0)
      unitWorld).1.toOption.join.map fun result => result.final.steps) = some 1 := by decide +kernel
  obtain ⟨first, hfirst, hthree⟩ := Action.exists_eq_of_map_eq_some hfirst
  have hlooser : Looser (⟨0.6, some 5, true⟩ : Limits Float) ⟨0.2, none, true⟩ :=
    ⟨by decide +kernel, nofun, rfl⟩
  have hquiet : ∀ report ∈ some silent, Quiet report (.matrix 0) := by
    rintro report ⟨rfl⟩
    exact ⟨fun _ _ _ => rfl, fun _ _ => Action.leaves_pure _ _, fun _ _ _ => rfl⟩
  obtain ⟨second, v₁, hrun, hcut, hlength, -⟩ :=
    run_looser computes_pointGradient computes_doubledHessian hlooser
    ⟨by decide +kernel, by decide +kernel⟩ (by rintro _ ⟨⟩) hquiet
    (show 0 < unitWorld.store.size from Nat.one_pos) rfl rfl hfirst
  rw [hrun] at hsecond
  have hone : second.final.steps = 1 := Option.some.inj hsecond
  exact ⟨first, second, _, v₁, hfirst, hrun, hcut, hthree, hone, hlength.trans hone⟩

end Iteration

end NewtonRaphson
