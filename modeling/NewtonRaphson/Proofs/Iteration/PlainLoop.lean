import NewtonRaphson.Proofs.Evaluator
import NewtonRaphson.Proofs.Iteration.StopReason
import NewtonRaphson.Proofs.OrderedScalar.Binary

/-! # The iteration against the plain loop

An iteration without a bound takes the steps of the plain loop. Both ask for the same gradients and
Hessians in the same order, and they stop at the same point, with one exception: the plain loop goes
on while the norm of the gradient is above the tolerance, an iteration goes on unless it is within.
A norm that is not ordered is neither.

* **`Newton.Fit`** — derivatives that have values of fitting shapes at all points of a size and
  precision.
* **`Iteration.counterpart`** — what an iteration comes to where the plain loop has ended.
* **`Iteration.Agrees`** — one loop against the other, step by step (`Iteration.agrees`).
* **`Iteration.run_refines_plainLoop`** — the iteration ends exactly if the plain loop does, in the
  counterpart of its end, and is refused exactly if it is, for the same cause. -/

namespace NewtonRaphson

variable {S E : Type} [SingularValues S]

/-! ## (1) Steps with derivatives that fit -/

namespace Newton

/-- Two functions **fit** points of a precision with `n` rows: at each such column they have values,
a gradient with `n` rows and a Hessian with `n` rows and columns. -/
structure Fit (G H : DenseMatrix S → Except Fault (DenseMatrix S)) (p : Precision)
    (n : Nat) : Prop where
  gradient : ∀ m, m.precision = p → m.shape = (n, 1) → ∃ g, G m = .ok g ∧ g.shape = (n, 1)
  hessian : ∀ m, m.precision = p → m.shape = (n, 1) → ∃ h, H m = .ok h ∧ h.shape = (n, n)

variable {df ddf : Evaluator S E} {G H : DenseMatrix S → Except Fault (DenseMatrix S)}
variable {r : Ref} {w w' : World S E} {m : DenseMatrix S}

/-- A step with pure evaluators that returns a status leaves a point of the same size and precision,
and the same point unless it succeeds. -/
theorem exists_point_of_step (hdf : df.Computes G) (hddf : ddf.Computes H)
    (hm : w.store.get? r = some m) {status : Status}
    (hstep : step df ddf (.matrix r) w = (.ok status, w')) :
    ∃ m', w'.store.get? r = some m' ∧ m'.precision = m.precision ∧ m'.shape = m.shape ∧
      (status ≠ .success → m' = m) := by
  obtain ⟨g, h, hvector, hg, hh⟩ := exists_values_of_step_eq_ok hdf hddf hm hstep
  obtain ⟨w₂, hm₂, -, hcarried⟩ := step_of_computes hdf hddf hm hvector hg hh
  rw [hcarried] at hstep
  rcases ho : outcome w.settings.factor m g h with cause | o
  · rw [ho] at hstep
    cases hstep
  · rw [ho] at hstep
    cases hstep
    by_cases hmoved : o.status = .success
    · obtain ⟨point, way, rfl⟩ := StepOutcome.status_eq_success_iff.mp hmoved
      obtain ⟨-, -, -, -, -, hadd, -⟩ := outcome_eq_moved_iff.mp ho
      obtain ⟨-, hentries⟩ := DenseMatrix.add_eq_ok_iff.mp hadd
      have hpoint : ((StepOutcome.moved point way).settle r w₂.store).get? r = some point :=
        StepOutcome.get?_settle_moved (Store.lt_size_of_get? hm₂)
      exact ⟨point, hpoint, hentries.precision_eq, hentries.shape_eq, fun h => absurd hmoved h⟩
    · refine ⟨m, ?_, rfl, rfl, fun _ => rfl⟩
      rw [StepOutcome.carryOut_store, StepOutcome.settle_of_ne_success hmoved]
      exact hm₂

/-- A step at a point whose gradient has a norm that is not ordered ends in a numerical error and
leaves the point alone. -/
theorem step_of_not_isOrdered [OrderedScalar S] (hdf : df.Computes G) (hddf : ddf.Computes H)
    {n : Nat} (hm : w.store.get? r = some m) (hshape : m.shape = (n, 1))
    (hfit : Fit G H m.precision n) {g : DenseMatrix S} (hg : G m = .ok g)
    (hnorm : Scalar.isOrdered g.norm = false) :
    ∃ w', step df ddf (.matrix r) w = (.ok .numericalError, w') ∧ w'.store.get? r = some m := by
  obtain ⟨hrows, hcols⟩ := Prod.mk.inj hshape
  obtain ⟨g', hg', hgshape⟩ := hfit.gradient m rfl hshape
  obtain rfl := Except.ok.inj (hg'.symm.trans hg)
  obtain ⟨h, hh, hhshape⟩ := hfit.hessian m rfl hshape
  obtain ⟨w₂, hm₂, -, hstep⟩ := step_of_computes hdf hddf hm (beq_iff_eq.mpr hcols) hg hh
  rw [← hrows] at hgshape hhshape
  have hfinite : (g'.isFinite && h.isFinite) = false := by
    rw [DenseMatrix.isFinite_of_not_isOrdered_norm hnorm, Bool.false_and]
  rw [outcome_of_not_finite hgshape hhshape hfinite] at hstep
  exact ⟨_, hstep, hm₂⟩

end Newton

namespace Iteration

variable {df ddf : Evaluator S E} {limits : Limits S} {callback : Option (Callback S E)} {x : Value}

/-! ## (2) The plain loop -/

/-- What a plain loop comes to in a world: its last status and its points, nothing if its fuel does
not suffice, or a fault. -/
abbrev Descent (S E : Type) := Except Fault (Option (Status × List (DenseMatrix S))) × World S E

/-- What a plain loop comes to if the point `m` comes before the others. -/
def Descent.cons (m : DenseMatrix S) : Descent S E → Descent S E
  | (.ok (some (last, later)), w) => (.ok (some (last, m :: later)), w)
  | out => out

/-- The **plain loop** to a tolerance from a status, with the points after each step. -/
def plainLoop (df ddf : Evaluator S E) (tolerance : S) (r : Ref) (fuel : Nat) (status : Status) :
    World S E → Descent S E :=
  descend df ddf tolerance (copyOf (.matrix r)) (.matrix r) fuel status

section Descend

variable {df ddf : Evaluator S E} {tolerance norm : S} {r : Ref} {w w₁ w₂ : World S E}

/-- After a step that did not succeed the plain loop ends. -/
theorem plainLoop_of_ne_success {status : Status} (h : status ≠ .success) (fuel : Nat)
    (w : World S E) :
    plainLoop df ddf tolerance r fuel status w = (.ok (some (status, [])), w) := by
  have hne : (status != .success) = true := bne_iff_ne.mpr h
  cases fuel <;> rw [plainLoop, descend, if_pos hne] <;> rfl

/-- The plain loop goes no further where the norm of the gradient is not above the tolerance. -/
theorem plainLoop_of_not_lt (hnorm : gradientNorm df (.matrix r) w = (.ok norm, w₁))
    (hlt : Scalar.lt tolerance norm = false) (fuel : Nat) :
    plainLoop df ddf tolerance r fuel .success w = (.ok (some (.success, [])), w₁) := by
  cases fuel <;>
  · rw [plainLoop, descend, if_neg (by decide), Action.bind_of_ok hnorm, hlt]
    rfl

/-- Where the norm is above the tolerance and the fuel is used up, nothing is returned. -/
theorem plainLoop_zero_of_lt (hnorm : gradientNorm df (.matrix r) w = (.ok norm, w₁))
    (hlt : Scalar.lt tolerance norm = true) :
    plainLoop df ddf tolerance r 0 .success w = (.ok none, w₁) := by
  rw [plainLoop, descend, if_neg (by decide), Action.bind_of_ok hnorm, hlt]
  rfl

/-- Otherwise the loop takes a step. If the step is refused, so is the loop. -/
theorem plainLoop_of_step_error {cause : Fault}
    (hnorm : gradientNorm df (.matrix r) w = (.ok norm, w₁)) (hlt : Scalar.lt tolerance norm = true)
    (hstep : Newton.step df ddf (.matrix r) w₁ = (.error cause, w₂)) (fuel : Nat) :
    plainLoop df ddf tolerance r (fuel + 1) .success w = (.error cause, w₂) := by
  rw [plainLoop, descend, if_neg (by decide), Action.bind_of_ok hnorm, if_pos hlt]
  exact Action.bind_of_error hstep

/-- Else the loop goes on from the point it came to, which is the first of its points. -/
theorem plainLoop_of_step {status : Status} {m : DenseMatrix S}
    (hnorm : gradientNorm df (.matrix r) w = (.ok norm, w₁)) (hlt : Scalar.lt tolerance norm = true)
    (hstep : Newton.step df ddf (.matrix r) w₁ = (.ok status, w₂)) (hm : w₂.store.get? r = some m)
    (fuel : Nat) :
    plainLoop df ddf tolerance r (fuel + 1) .success w =
      (plainLoop df ddf tolerance r fuel status w₂).cons m := by
  have hcopy : (copyOf (.matrix r) : Action S E _) w₂ = (.ok m, w₂) := by
    rw [← Store.get_of_get? hm]
    rfl
  rw [plainLoop, plainLoop, descend, if_neg (by decide), Action.bind_of_ok hnorm, if_pos hlt]
  dsimp only
  rw [Action.bind_of_ok hstep, Action.bind_of_ok hcopy]
  rcases hrest : descend df ddf tolerance (copyOf (.matrix r)) (.matrix r) fuel status w₂ with
    ⟨cause | _ | ⟨last, later⟩, w'⟩
  · exact Action.bind_of_error hrest
  · exact Action.bind_of_ok hrest
  · exact Action.bind_of_ok hrest

end Descend

/-! ## (3) Agreement of the loops -/

/-- What an iteration comes to where the plain loop has ended after the progress `p`, with a status
and the points of its steps, at a point `m` whose gradient has a norm. **A norm that is not
ordered** does not end the iteration: it takes one more step, which fails. -/
def counterpart (keepHistory : Bool) (p : Progress S) (status : Status)
    (points : List (DenseMatrix S)) (m : DenseMatrix S) (norm : S) : Progress S :=
  if status = .success ∧ Scalar.isOrdered norm = false then
    ⟨p.steps + (points.length + 1), .numericalError, norm,
      p.history ++ (points ++ [m]).flatMap (kept keepHistory)⟩
  else ⟨p.steps + points.length, status, norm, p.history ++ points.flatMap (kept keepHistory)⟩

/-- The counterpart is the progress itself if the plain loop ends there, and the iteration as
well. -/
theorem counterpart_self {keepHistory : Bool} {p : Progress S} {status : Status} {norm : S}
    (hstatus : p.status = status) (hnorm : p.gradientNorm = norm)
    (h : status = .success → Scalar.isOrdered norm = true) (m : DenseMatrix S) :
    counterpart keepHistory p status [] m norm = p := by
  subst hstatus hnorm
  have hover : ¬ (p.status = .success ∧ Scalar.isOrdered p.gradientNorm = false) := by
    rintro ⟨hsuccess, hordered⟩
    rw [h hsuccess] at hordered
    cases hordered
  rw [counterpart, if_neg hover, List.flatMap_nil, List.append_nil]
  rfl

/-- The counterpart of an end that comes after one more point is its counterpart from the progress
that this point leads to. -/
theorem counterpart_cons {keepHistory : Bool} {p p' : Progress S} {m' : DenseMatrix S}
    (hsteps : p'.steps = p.steps + 1) (hhistory : p'.history = p.history ++ kept keepHistory m')
    (status : Status) (points : List (DenseMatrix S)) (m : DenseMatrix S) (norm : S) :
    counterpart keepHistory p status (m' :: points) m norm =
      counterpart keepHistory p' status points m norm := by
  rw [counterpart, counterpart, hsteps, hhistory, List.cons_append, List.flatMap_cons,
    List.flatMap_cons, List.length_cons, List.append_assoc, List.append_assoc,
    show p.steps + (points.length + 1) = p.steps + 1 + points.length by omega,
    show p.steps + (points.length + 1 + 1) = p.steps + 1 + (points.length + 1) by omega]

/-- When a plain loop and an iteration from the progress `p` **agree**, given what the plain loop
comes to and what the iteration comes to, first with the same fuel and then with a unit more. -/
inductive Agrees (G : DenseMatrix S → Except Fault (DenseMatrix S)) (r : Ref) (keepHistory : Bool)
    (p : Progress S) : Descent S E → Except Fault (Option (Progress S)) × World S E →
      Except Fault (Option (Progress S)) × World S E → Prop
  /-- Both are refused for the same cause. -/
  | refused {cause : Fault} {w w' : World S E}
      {same : Except Fault (Option (Progress S)) × World S E} :
      Agrees G r keepHistory p (.error cause, w) same (.error cause, w')
  /-- The same fuel does not suffice for either. -/
  | unfinished {w w' : World S E} {more : Except Fault (Option (Progress S)) × World S E} :
      Agrees G r keepHistory p (.ok none, w) (.ok none, w') more
  /-- The iteration ends in the counterpart of the end of the plain loop, at the same point. -/
  | ended {status : Status} {points : List (DenseMatrix S)} {m g : DenseMatrix S} {q : Progress S}
      {w w' : World S E} {same : Except Fault (Option (Progress S)) × World S E}
      (hm : w.store.get? r = some m) (hg : G m = .ok g) (hm' : w'.store.get? r = some m)
      (hq : q = counterpart keepHistory p status points m g.norm) :
      Agrees G r keepHistory p (.ok (some (status, points)), w) same (.ok (some q), w')

/-- Loops that agree from the progress that a point leads to agree with that point before the
others. -/
theorem Agrees.cons {G : DenseMatrix S → Except Fault (DenseMatrix S)} {r : Ref}
    {keepHistory : Bool} {p p' : Progress S} {out : Descent S E}
    {same more : Except Fault (Option (Progress S)) × World S E} {m : DenseMatrix S}
    (h : Agrees G r keepHistory p' out same more) (hsteps : p'.steps = p.steps + 1)
    (hhistory : p'.history = p.history ++ kept keepHistory m) :
    Agrees G r keepHistory p (out.cons m) same more := by
  cases h with
  | refused => exact .refused
  | unfinished => exact .unfinished
  | ended hm hg hm' hq =>
    exact .ended hm hg hm' (hq.trans (counterpart_cons hsteps hhistory _ _ _ _).symm)

section Inversion

variable {G : DenseMatrix S → Except Fault (DenseMatrix S)} {r : Ref} {keepHistory : Bool}
  {p : Progress S}
variable {w : World S E} {out : Descent S E}
  {same more : Except Fault (Option (Progress S)) × World S E}

/-- Where the plain loop has ended, the iteration ends in the counterpart. -/
theorem Agrees.exists_end {status : Status} {points : List (DenseMatrix S)}
    (h : Agrees G r keepHistory p (.ok (some (status, points)), w) same more) :
    ∃ m g w', w.store.get? r = some m ∧ G m = .ok g ∧ w'.store.get? r = some m ∧
      more = (.ok (some (counterpart keepHistory p status points m g.norm)), w') := by
  cases h with
  | ended hm hg hm' hq => exact ⟨_, _, _, hm, hg, hm', by rw [hq]⟩

/-- Where the plain loop is refused, so is the iteration. -/
theorem Agrees.refused_of_refused (h : Agrees G r keepHistory p out same more) {cause : Fault}
    (hout : out.1 = .error cause) : more.1 = .error cause := by
  cases h with
  | refused => exact congrArg Except.error (Except.error.inj hout)
  | unfinished => cases hout
  | ended => cases hout

/-- If more fuel changes nothing, then the iteration ends only where the plain loop does, and it is
refused only where the plain loop is. -/
theorem Agrees.of_ne_none (h : Agrees G r keepHistory p out same more)
    (hmore : same.1 ≠ .ok none → more = same) (hsame : same.1 ≠ .ok none) :
    (∃ ending q, out.1 = .ok (some ending) ∧ same.1 = .ok (some q)) ∨
      ∃ cause, out.1 = .error cause ∧ same.1 = .error cause := by
  obtain rfl := hmore hsame
  cases h with
  | refused => exact .inr ⟨_, rfl, rfl⟩
  | unfinished => exact absurd rfl hsame
  | ended => exact .inl ⟨_, _, rfl, rfl⟩

end Inversion

section Lockstep

variable {df ddf : Evaluator S E} {G H : DenseMatrix S → Except Fault (DenseMatrix S)} {r : Ref}
variable {precision : Precision} {n : Nat} {p : Progress S} {w w₁ : World S E} {m : DenseMatrix S}

/-- An iteration is over after a step that did not succeed. -/
theorem isOver_of_status {limits : Limits S} (h : p.status ≠ .success) :
    isOver limits p = true := by
  rw [isOver, bne_iff_ne.mpr h, Bool.true_or, Bool.true_or]

/-- An advance without a callback, once its step and its gradient are known. -/
theorem advance_of_step {limits : Limits S} {w₂ : World S E} {status : Status} {norm : S}
    (hstep : Newton.step df ddf (.matrix r) w = (.ok status, w₁)) (hm : w₁.store.get? r = some m)
    (hnorm : gradientNorm df (.matrix r) w₁ = (.ok norm, w₂)) :
    advance df ddf limits none (.matrix r) p w =
      (.ok ⟨p.steps + 1, status, norm, p.history ++ kept limits.keepHistory m⟩, w₂) := by
  refine advance_eq_ok_iff.mpr ⟨r, status, w₁, w₁, norm, rfl, hstep, rfl, hnorm, ?_⟩
  rw [Store.get_of_get? hm]

/-- Where the gradient of a point that the functions fit is known, its norm is that of the
function's value, and the point is still there. -/
theorem exists_gradient (hdf : df.Computes G) (hfit : Newton.Fit G H m.precision n)
    (hm : w.store.get? r = some m) (hshape : m.shape = (n, 1)) {norm : S}
    (hnorm : gradientNorm df (.matrix r) w = (.ok norm, w₁)) :
    ∃ g, G m = .ok g ∧ norm = g.norm ∧ w₁.store.get? r = some m := by
  obtain ⟨g, hg, -⟩ := hfit.gradient m rfl hshape
  obtain ⟨w₂, hnorm', hm₂, -⟩ := gradientNorm_of_computes hdf hm hg
  obtain ⟨hnorms, rfl⟩ := Prod.mk.inj (hnorm'.symm.trans hnorm)
  exact ⟨g, hg, (Except.ok.inj hnorms).symm, hm₂⟩

variable [OrderedScalar S]

/-- Where the plain loop goes no further, the iteration ends, after one more step if the norm of the
gradient is not ordered. -/
theorem agrees_of_not_lt (hdf : df.Computes G) (hddf : ddf.Computes H)
    (hfit : Newton.Fit G H m.precision n) {tolerance : S}
    (htolerance : Scalar.isOrdered tolerance = true) (keepHistory : Bool) (fuel : Nat)
    (hm : w.store.get? r = some m) (hshape : m.shape = (n, 1)) (hsuccess : p.status = .success)
    (hnorm : gradientNorm df (.matrix r) w = (.ok p.gradientNorm, w₁))
    (hlt : Scalar.lt tolerance p.gradientNorm = false) :
    Agrees G r keepHistory p (plainLoop df ddf tolerance r fuel .success w)
      (loop df ddf ⟨tolerance, none, keepHistory⟩ none (.matrix r) fuel p w₁)
      (loop df ddf ⟨tolerance, none, keepHistory⟩ none (.matrix r) (fuel + 1) p w₁) := by
  rw [plainLoop_of_not_lt hnorm hlt]
  obtain ⟨g, hg, hvalue, hm₁⟩ := exists_gradient hdf hfit hm hshape hnorm
  rw [hvalue] at hlt
  cases hordered : Scalar.isOrdered g.norm with
  | true =>
    have hwithin : withinTolerance p.gradientNorm tolerance = true := by
      rw [OrderedScalar.lt_eq_not_le htolerance hordered, Bool.not_eq_false'] at hlt
      rw [hvalue]
      exact hlt
    have hover : isOver ⟨tolerance, none, keepHistory⟩ p = true :=
      isOver_of_hasConverged (hasConverged_iff.mpr ⟨hsuccess, hwithin⟩)
    rw [loop_of_isOver hover (fuel + 1)]
    exact .ended hm₁ hg hm₁ (counterpart_self hsuccess hvalue (fun _ => hordered) m).symm
  | false =>
    -- what is not ordered is not within the tolerance either
    have hgo : isOver ⟨tolerance, none, keepHistory⟩ p = false := by
      refine isOver_eq_false_iff.mpr ⟨hsuccess, Bool.eq_false_iff.mpr fun hle => ?_, rfl⟩
      have hnormed := (OrderedScalar.isOrdered_of_le _ _ hle).1
      rw [hvalue, hordered] at hnormed
      cases hnormed
    obtain ⟨w₂, hstep, hm₂⟩ := Newton.step_of_not_isOrdered hdf hddf hm₁ hshape hfit hg hordered
    obtain ⟨w₃, hnorm₃, hm₃, -⟩ := gradientNorm_of_computes hdf hm₂ hg
    have hover : isOver ⟨tolerance, none, keepHistory⟩
        ⟨p.steps + 1, .numericalError, g.norm, p.history ++ kept keepHistory m⟩ = true :=
      isOver_of_status nofun
    rw [loop_succ_of_not_isOver hgo fuel w₁, Action.bind_of_ok (advance_of_step hstep hm₂ hnorm₃),
      loop_of_isOver hover]
    refine .ended hm₁ hg hm₃ ?_
    rw [counterpart, if_pos ⟨rfl, hordered⟩, List.nil_append, List.flatMap_singleton]
    rfl

/-- **One loop against the other**, from a point where the gradient is known. -/
theorem agrees (hdf : df.Computes G) (hddf : ddf.Computes H) (hfit : Newton.Fit G H precision n)
    {tolerance : S} (htolerance : Scalar.isOrdered tolerance = true) (keepHistory : Bool)
    (fuel : Nat) (hm : w.store.get? r = some m) (hprecision : m.precision = precision)
    (hshape : m.shape = (n, 1)) (hsuccess : p.status = .success)
    (hnorm : gradientNorm df (.matrix r) w = (.ok p.gradientNorm, w₁)) :
    Agrees G r keepHistory p (plainLoop df ddf tolerance r fuel .success w)
      (loop df ddf ⟨tolerance, none, keepHistory⟩ none (.matrix r) fuel p w₁)
      (loop df ddf ⟨tolerance, none, keepHistory⟩ none (.matrix r) (fuel + 1) p w₁) := by
  induction fuel generalizing p w w₁ m with
  | zero =>
    cases hlt : Scalar.lt tolerance p.gradientNorm with
    | false =>
      exact agrees_of_not_lt hdf hddf (hprecision ▸ hfit) htolerance keepHistory 0 hm hshape
        hsuccess hnorm hlt
    | true =>
      have hgo : isOver ⟨tolerance, none, keepHistory⟩ p = false :=
        isOver_eq_false_iff.mpr ⟨hsuccess, OrderedScalar.not_le_of_lt _ _ hlt, rfl⟩
      rw [plainLoop_zero_of_lt hnorm hlt, loop, if_neg (Bool.eq_false_iff.mp hgo)]
      exact .unfinished
  | succ fuel ih =>
    cases hlt : Scalar.lt tolerance p.gradientNorm with
    | false =>
      exact agrees_of_not_lt hdf hddf (hprecision ▸ hfit) htolerance keepHistory (fuel + 1) hm
        hshape hsuccess hnorm hlt
    | true =>
      have hgo : isOver ⟨tolerance, none, keepHistory⟩ p = false :=
        isOver_eq_false_iff.mpr ⟨hsuccess, OrderedScalar.not_le_of_lt _ _ hlt, rfl⟩
      obtain ⟨-, -, -, hm₁⟩ := exists_gradient hdf (hprecision ▸ hfit) hm hshape hnorm
      rw [loop_succ_of_not_isOver hgo fuel, loop_succ_of_not_isOver hgo (fuel + 1)]
      rcases hstep : Newton.step df ddf (.matrix r) w₁ with ⟨cause | status, w₂⟩
      · have hrefused : advance df ddf ⟨tolerance, none, keepHistory⟩ none (.matrix r) p w₁ =
            (.error cause, w₂) := Action.bind_of_error hstep
        rw [plainLoop_of_step_error hnorm hlt hstep, Action.bind_of_error hrefused,
          Action.bind_of_error hrefused]
        exact .refused
      · -- both have come to the same point, where the iteration asks for the gradient at once
        obtain ⟨m', hm', hprecision', hshape', -⟩ := Newton.exists_point_of_step hdf hddf hm₁ hstep
        rw [hprecision] at hprecision'
        rw [hshape] at hshape'
        obtain ⟨g', hg', -⟩ := hfit.gradient m' hprecision' hshape'
        obtain ⟨w₃, hnorm', hm₃, -⟩ := gradientNorm_of_computes hdf hm' hg'
        have hadvance : advance df ddf ⟨tolerance, none, keepHistory⟩ none (.matrix r) p w₁ =
            (.ok ⟨p.steps + 1, status, g'.norm, p.history ++ kept keepHistory m'⟩, w₃) :=
          advance_of_step hstep hm' hnorm'
        rw [plainLoop_of_step hnorm hlt hstep hm', Action.bind_of_ok hadvance,
          Action.bind_of_ok hadvance]
        suffices h : Agrees G r keepHistory
          ⟨p.steps + 1, status, g'.norm, p.history ++ kept keepHistory m'⟩ _ _ _ from h.cons rfl rfl
        by_cases hstatus : status = .success
        · subst hstatus
          exact ih hm' hprecision' hshape' rfl hnorm'
        · rw [plainLoop_of_ne_success hstatus, loop_of_isOver (isOver_of_status hstatus) (fuel + 1)]
          exact .ended hm' hg' hm₃ (counterpart_self rfl rfl (fun h => absurd h hstatus) m').symm

end Lockstep

/-! ## (4) The iteration refines the plain loop -/

/-- The points of a run whose history is kept are its history. -/
theorem flatMap_kept {S : Type} (points : List (DenseMatrix S)) :
    points.flatMap (kept true) = points := by
  induction points with
  | nil => rfl
  | cons m points ih =>
    rw [List.flatMap_cons, ih]
    rfl

/-- What the counterpart of an end is for an iteration from its start. -/
theorem counterpart_start (keepHistory : Bool) (norm₀ : S) (status : Status)
    (points : List (DenseMatrix S)) (m : DenseMatrix S) (norm : S) :
    (counterpart keepHistory ⟨0, .success, norm₀, []⟩ status points m norm).gradientNorm = norm ∧
      if status = .success ∧ Scalar.isOrdered norm = false then
        (counterpart keepHistory ⟨0, .success, norm₀, []⟩ status points m norm).status =
          .numericalError ∧
          (counterpart keepHistory ⟨0, .success, norm₀, []⟩ status points m norm).steps =
            points.length + 1 ∧
          (keepHistory = true →
            (counterpart keepHistory ⟨0, .success, norm₀, []⟩ status points m norm).history =
              points ++ [m])
      else
        (counterpart keepHistory ⟨0, .success, norm₀, []⟩ status points m norm).status = status ∧
          (counterpart keepHistory ⟨0, .success, norm₀, []⟩ status points m norm).steps =
          points.length ∧ (keepHistory = true →
            (counterpart keepHistory ⟨0, .success, norm₀, []⟩ status points m norm).history =
            points) := by
  unfold counterpart
  split
  · refine ⟨rfl, rfl, Nat.zero_add _, ?_⟩
    rintro rfl
    exact flatMap_kept _
  · refine ⟨rfl, rfl, Nat.zero_add _, ?_⟩
    rintro rfl
    exact flatMap_kept _

/-- A tolerance that is not below zero is accepted where there is no bound. -/
theorem accepted_of_zero_le [OrderedScalar S] {tolerance : S}
    (h : Scalar.le Scalar.zero tolerance = true) (keepHistory : Bool) :
    Accepted ⟨tolerance, none, keepHistory⟩ :=
  ⟨OrderedScalar.not_lt_zero h, rfl⟩

/-- **The iteration refines the plain loop**, for pure derivatives with values of fitting shapes and
a tolerance that is not below zero. Where the plain loop ends, the iteration ends at the same point
with the norm of the gradient there, and it has the same status and took the same steps through the
same points, unless the plain loop stopped with a success at a norm that is not ordered: then the
iteration took one more step, which left the point alone and ended in a numerical error. One of the
two ends exactly if the other one does, and each is refused for exactly the causes for which the
other one is. -/
theorem run_refines_plainLoop [OrderedScalar S] {df ddf : Evaluator S E}
    {G H : DenseMatrix S → Except Fault (DenseMatrix S)} (hdf : df.Computes G)
    (hddf : ddf.Computes H) {r : Ref} {w : World S E} {x : DenseMatrix S}
    (hx : w.store.get? r = some x) {n : Nat} (hshape : x.shape = (n, 1))
    (hfit : Newton.Fit G H x.precision n) {tolerance : S}
    (htolerance : Scalar.le Scalar.zero tolerance = true) (keepHistory : Bool) :
    (∀ fuel status points w₁,
      plainLoop df ddf tolerance r fuel .success w = (.ok (some (status, points)), w₁) →
      ∃ m g result w₂, w₁.store.get? r = some m ∧ G m = .ok g ∧
        run (fuel + 1) df ddf ⟨tolerance, none, keepHistory⟩ none (.matrix r) w =
          (.ok (some result), w₂) ∧
        w₂.store.get? r = some m ∧ result.final.gradientNorm = g.norm ∧
        if status = .success ∧ Scalar.isOrdered g.norm = false then
          result.final.status = .numericalError ∧ result.final.steps = points.length + 1 ∧
            (keepHistory = true → result.final.history = points ++ [m])
        else
          result.final.status = status ∧ result.final.steps = points.length ∧
            (keepHistory = true → result.final.history = points)) ∧
    ((∃ fuel ending, (plainLoop df ddf tolerance r fuel .success w).1 = .ok (some ending)) ↔
      ∃ fuel result, (run fuel df ddf ⟨tolerance, none, keepHistory⟩ none (.matrix r) w).1 =
        .ok (some result)) ∧
    ∀ cause, (∃ fuel, (plainLoop df ddf tolerance r fuel .success w).1 = .error cause) ↔
      ∃ fuel, (run fuel df ddf ⟨tolerance, none, keepHistory⟩ none (.matrix r) w).1 =
      .error cause := by
  have hacc : Accepted ⟨tolerance, none, keepHistory⟩ := accepted_of_zero_le htolerance keepHistory
  have hordered : Scalar.isOrdered tolerance = true :=
    (OrderedScalar.isOrdered_of_le _ _ htolerance).2
  obtain ⟨g₀, hg₀, -⟩ := hfit.gradient x rfl hshape
  obtain ⟨w₀, hnorm, -⟩ := gradientNorm_of_computes hdf hx hg₀
  have hagrees (fuel : Nat) : Agrees G r keepHistory ⟨0, .success, g₀.norm, []⟩
      (plainLoop df ddf tolerance r fuel .success w)
      (loop df ddf ⟨tolerance, none, keepHistory⟩ none (.matrix r) fuel ⟨0, .success, g₀.norm, []⟩
        w₀)
      (loop df ddf ⟨tolerance, none, keepHistory⟩ none (.matrix r) (fuel + 1)
        ⟨0, .success, g₀.norm, []⟩ w₀) :=
    agrees hdf hddf hfit hordered keepHistory fuel hx rfl hshape rfl hnorm
  have hended {fuel : Nat} {status : Status} {points : List (DenseMatrix S)} {w₁ : World S E}
      (hplain : plainLoop df ddf tolerance r fuel .success w = (.ok (some (status, points)), w₁)) :=
    (hplain ▸ hagrees fuel).exists_end
  -- where the fuel of the run suffices, that of the plain loop does, and both come to the same
  have hback {fuel : Nat} {out : Except Fault (Option (Run S))}
      (hrun : (run fuel df ddf ⟨tolerance, none, keepHistory⟩ none (.matrix r) w).1 = out)
      (hout : out ≠ .ok none) :
      (∃ ending result, (plainLoop df ddf tolerance r fuel .success w).1 = .ok (some ending) ∧
          out = .ok (some result)) ∨
        ∃ cause, (plainLoop df ddf tolerance r fuel .success w).1 = .error cause ∧
          out = .error cause := by
    rw [fst_run hacc hnorm] at hrun
    obtain rfl := hrun
    have hloop := (hagrees fuel).of_ne_none loop_succ_fuel fun hnone => hout (by rw [hnone]; rfl)
    rcases hloop with ⟨ending, q, hplain, hq⟩ | ⟨cause, hplain, hcause⟩
    · exact .inl ⟨ending, _, hplain, by rw [hq]; rfl⟩
    · exact .inr ⟨cause, hplain, by rw [hcause]; rfl⟩
  refine ⟨?_, ?_, ?_⟩
  · intro fuel status points w₁ hplain
    obtain ⟨m, g, w₂, hm, hg, hm₂, hloop⟩ := hended hplain
    exact ⟨m, g, _, _, hm, hg, run_of_loop hacc hnorm hloop, hm₂,
      counterpart_start keepHistory g₀.norm status points m g.norm⟩
  · constructor
    · rintro ⟨fuel, ⟨status, points⟩, hplain⟩
      obtain ⟨m, g, w₂, -, -, -, hloop⟩ := hended (Prod.ext hplain rfl)
      exact ⟨fuel + 1, _, congrArg Prod.fst (run_of_loop hacc hnorm hloop)⟩
    · rintro ⟨fuel, result, hrun⟩
      rcases hback hrun nofun with ⟨ending, -, hplain, -⟩ | ⟨cause, -, hcause⟩
      · exact ⟨fuel, ending, hplain⟩
      · cases hcause
  · intro cause
    constructor
    · rintro ⟨fuel, hplain⟩
      refine ⟨fuel + 1, ?_⟩
      rw [fst_run hacc hnorm, (hagrees fuel).refused_of_refused hplain]
      rfl
    · rintro ⟨fuel, hrun⟩
      rcases hback hrun nofun with ⟨-, result, -, hresult⟩ | ⟨cause', hplain, hcause⟩
      · cases hresult
      · obtain rfl := Except.error.inj hcause
        exact ⟨fuel, hplain⟩

/-! ### A norm that is not ordered, and one that is -/

/-- The matrix with the single entry one. -/
def unit : DenseMatrix Float := .identity .double 1 Nat.one_pos

/-- The world that holds nothing but a point at one. -/
def unitWorld : World Float Unit := ⟨⟨#[unit]⟩, .initial, .initial, ()⟩

/-- The matrix whose single entry is undefined. -/
def undefinedUnit : DenseMatrix Float :=
  .ofFn .double Nat.one_pos Nat.one_pos fun _ _ : Fin 1 => Scalar.undefined

/-- The gradient that is undefined at every point. -/
def undefinedGradient : Evaluator Float Unit := .ofFunction fun _ => .ok undefinedUnit

/-- The gradient that is the point itself. -/
def pointGradient : Evaluator Float Unit := .ofFunction .ok

theorem computes_pointGradient : pointGradient.Computes .ok := Evaluator.computes_ofFunction .ok

/-- The Hessian that is one at every point. -/
def unitHessian : Evaluator Float Unit := .ofFunction fun _ => .ok unit

/-- With a gradient that is undefined everywhere the plain loop ends with a success before its first
step, the iteration with a numerical error after its first step, although both derivatives are pure
and fit. -/
theorem plainLoop_ends_before_run :
    undefinedGradient.Computes (fun _ => .ok undefinedUnit) ∧
      unitHessian.Computes (fun _ => .ok unit) ∧
      Newton.Fit (fun _ => .ok undefinedUnit) (fun _ => .ok unit) .double 1 ∧
      Scalar.le Scalar.zero (0.5 : Float) = true ∧
      ((plainLoop undefinedGradient unitHessian 0.5 0 0 .success unitWorld).1.toOption.join.map
        fun ending => (ending.1, ending.2.length)) = some (.success, 0) ∧
      ((run 1 undefinedGradient unitHessian ⟨0.5, none, true⟩ none (.matrix 0)
        unitWorld).1.toOption.join.map
        fun result => (result.final.status, result.final.steps)) = some (.numericalError, 1) := by
  refine ⟨Evaluator.computes_ofFunction _, Evaluator.computes_ofFunction _, ?_, by decide +kernel,
    by decide +kernel, by decide +kernel⟩
  exact ⟨fun _ _ _ => ⟨undefinedUnit, rfl, rfl⟩, fun _ _ _ => ⟨unit, rfl, rfl⟩⟩

/-- From one the plain loop takes a single step, to zero, and so does the iteration. -/
theorem run_refines_plainLoop_of_unit :
    ∃ result w₂, run 2 pointGradient unitHessian ⟨0.5, none, true⟩ none (.matrix 0) unitWorld =
        (.ok (some result), w₂) ∧
      result.final.status = .success ∧ result.final.steps = 1 := by
  have hfit : Newton.Fit Except.ok (fun _ => Except.ok unit) .double 1 :=
    ⟨fun m _ hm => ⟨m, rfl, hm⟩, fun _ _ _ => ⟨unit, rfl, rfl⟩⟩
  have htolerance : Scalar.le Scalar.zero (0.5 : Float) = true := by decide +kernel
  obtain ⟨hend, -⟩ :=
    run_refines_plainLoop (r := 0) (w := unitWorld) (Evaluator.computes_ofFunction .ok)
    (Evaluator.computes_ofFunction fun _ => .ok unit) rfl rfl hfit htolerance true
  have hplain :
      ((plainLoop pointGradient unitHessian 0.5 0 1 .success unitWorld).1.toOption.join.map
        fun ending => (ending.1, ending.2.length)) = some (.success, 1) := by
    decide +kernel
  obtain ⟨⟨status, points⟩, hplain, hvalues⟩ := Action.exists_eq_of_map_eq_some hplain
  obtain ⟨m, g, result, w₂, hm, hg, hrun, -, -, hfinal⟩ := hend 1 status points _ hplain
  obtain ⟨rfl, hlength⟩ := Prod.mk.inj hvalues
  obtain rfl := Except.ok.inj hg
  -- the norm at the end is ordered
  have hend : (((plainLoop pointGradient unitHessian 0.5 0 1 .success unitWorld).2.store.get? 0).map
      fun m => Scalar.isOrdered m.norm) = some true := by
    decide +kernel
  rw [hm] at hend
  have hordered : Scalar.isOrdered m.norm = true := Option.some.inj hend
  rw [if_neg fun h => Bool.noConfusion (hordered.symm.trans h.2)] at hfinal
  exact ⟨result, w₂, hrun, hfinal.1, hfinal.2.1.trans hlength⟩

end Iteration

end NewtonRaphson
