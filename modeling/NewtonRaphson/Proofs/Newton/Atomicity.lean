import NewtonRaphson.Proofs.Newton
import NewtonRaphson.SingularValues.Jacobi

/-! # Steps are atomic

A Newton step either changes nothing or does all it is to do. Its evaluators may answer with
anything, also with the point itself, and may be refused; they only must not overwrite a matrix
themselves.

* **`Newton.step_atomic`** — a step that does not succeed changes no matrix; one that succeeds
  changes the point alone, to the sum of the old point and the solution of the Newton system. -/

namespace NewtonRaphson

variable {S E : Type}

namespace Newton

/-- The matrix of the point after a step that succeeds: it is finite, and the sum of the old point
and the solution of the Newton system. -/
theorem get?_step_success [SingularValues S] {df ddf : Evaluator S E} {x : Value} {w : World S E}
    {r g h : Ref} {old : DenseMatrix S} {o : StepOutcome S} {w₂ : World S E}
    (hold : w₂.store.get? r = some old)
    (ho : outcome w₂.settings.factor (w₂.store.get r) (w₂.store.get g) (w₂.store.get h) = .ok o)
    (hs : o.status = .success) (hw : (step df ddf x w).2 = o.carryOut r (w₂.store.get r) w₂) :
    ∃ way new, solve (.standard w₂.settings.factor) (w₂.store.get h) (w₂.store.get g).neg =
      .ok way ∧
      (step df ddf x w).2.store.get? r = some new ∧ DenseMatrix.Entrywise Scalar.add old way new ∧
        new.isFinite = true := by
  obtain ⟨new, way, rfl⟩ := StepOutcome.status_eq_success_iff.mp hs
  rw [outcome_eq_moved_iff, Store.get_of_get? hold] at ho
  obtain ⟨-, -, -, -, hsolve, hadd, hfinite⟩ := ho
  refine ⟨way, new, hsolve, ?_, (DenseMatrix.add_eq_ok_iff.mp hadd).2, hfinite⟩
  rw [hw, StepOutcome.carryOut_store,
    StepOutcome.get?_settle_moved (Store.lt_size_of_get? hold)]

/-- **A Newton step is atomic.** Let the evaluators overwrite no matrix that is there when they are
asked. If the step ends in any other way than with success — with another status, with a fault of a
check, or with a fault of an evaluator — then every matrix is as it was. If it succeeds, then the
point is a matrix, and no other one has changed; the point has its old shape and precision, is
finite, and is the entrywise sum of the old point and the solution of `H · dx = -g`, where `g` and
`H` are what the evaluators answered at the old point. -/
theorem step_atomic [SingularValues S] (df ddf : Evaluator S E) (x : Value) (w : World S E)
    (hdf : ∀ q : Ref, (df x).Leaves (.matrix q)) (hddf : ∀ q : Ref, (ddf x).Leaves (.matrix q))
    (hx : ∀ r, x = .matrix r → r < w.store.size) :
    ((step df ddf x w).1 ≠ .ok .success →
      ∀ q m, w.store.get? q = some m → (step df ddf x w).2.store.get? q = some m) ∧
    ((step df ddf x w).1 = .ok .success →
      ∃ r g h old way new w₁ w₂, x = .matrix r ∧ w.store.get? r = some old ∧
        df x w = (.ok (.matrix g), w₁) ∧ w₁.store.get? r = some old ∧
        ddf x w₁ = (.ok (.matrix h), w₂) ∧ w₂.store.get? r = some old ∧
        solve (.standard w₂.settings.factor) (w₂.store.get h) (w₂.store.get g).neg = .ok way ∧
        (step df ddf x w).2.store.get? r = some new ∧
        DenseMatrix.Entrywise Scalar.add old way new ∧ new.shape = old.shape ∧
        new.precision = old.precision ∧ new.isFinite = true ∧
        (∀ q, q ≠ r → (step df ddf x w).2.store.get? q = w₂.store.get? q) ∧
        ∀ q m, q ≠ r → w.store.get? q = some m → (step df ddf x w).2.store.get? q = some m) := by
  constructor
  · intro hs q m hm
    exact held_step_of_ne_success (hdf q) (hddf q) hm hs
  · intro hs
    obtain ⟨r, g, h, o, w₁, w₂, rfl, -, hg, hh, ho, hstatus, hw⟩ :=
      step_eq_ok (show step df ddf x w = (.ok .success, (step df ddf x w).2) from Prod.ext hs rfl)
    -- the old point is still there when the outcome is worked out
    have hold : w.store.get? r = some (w.store.get r) := Store.get?_of_lt (hx r rfl)
    have hold₁ : w₁.store.get? r = some (w.store.get r) := (hdf r).held_of_eq hg hold
    have hold₂ : w₂.store.get? r = some (w.store.get r) := (hddf r).held_of_eq hh hold₁
    obtain ⟨way, new, hsolve, hnew, hsum, hfinite⟩ := get?_step_success hold₂ ho hstatus hw
    refine ⟨r, g, h, w.store.get r, way, new, w₁, w₂, rfl, hold, hg, hold₁, hh, hold₂, hsolve, hnew,
      hsum, hsum.shape_eq, hsum.precision_eq, hfinite, ?_, ?_⟩
    · intro q hq
      rw [hw, StepOutcome.carryOut_store, StepOutcome.get?_settle_of_ne o hq]
    · intro q m hq hm
      exact leaves_step hq (hdf q) (hddf q) w m hm

/-! ### A step whose gradient is the point itself -/

/-- Two doubles in a column. -/
def columnOfTwo (a b : Float) : DenseMatrix Float :=
  ⟨.double, 2, 1, Nat.two_pos, Nat.one_pos, .ofFn fun i _ => if i.val = 0 then a else b⟩

/-- A world with the point `(-3, -2)`, and twice the identity beside it. -/
def twoMatrices : World Float Unit :=
  ⟨⟨#[columnOfTwo (-3.0) (-2.0), (DenseMatrix.identity .double 2 Nat.two_pos).scale 2.0]⟩,
    .initial, .initial, ()⟩

/-- The step that is asked for at the point `(-3, -2)`, with the point itself for its gradient and
twice the identity for its Hessian, succeeds, and moves the point without touching the Hessian. -/
theorem step_atomic_of_answering_the_point :
    ∃ new hessian, twoMatrices.store.get? 1 = some hessian ∧
      (step pure (fun _ => pure (.matrix 1)) (.matrix 0) twoMatrices).1 = .ok .success ∧
      (step pure (fun _ => pure (.matrix 1)) (.matrix 0) twoMatrices).2.store.get? 0 = some new ∧
      new.shape = (2, 1) ∧ new.isFinite = true ∧
      (step pure (fun _ => pure (.matrix 1)) (.matrix 0) twoMatrices).2.store.get? 1 =
      some hessian := by
  have hsucceeds :
      (step pure (fun _ => pure (.matrix 1)) (.matrix 0) twoMatrices).1 = .ok .success :=
    Action.eq_ok_of_toOption (by decide +kernel)
  have hatomic := step_atomic pure (fun _ => pure (.matrix 1)) (.matrix 0) twoMatrices
    (fun _ => Action.leaves_pure _ _) (fun _ => Action.leaves_pure _ _)
    (fun r hr => by cases hr; decide)
  obtain ⟨r, g, h, old, way, new, w₁, w₂, hr, hold, -, -, -, -, -, hnew, -, hshape, -, hfinite, -,
    hother⟩ := hatomic.2 hsucceeds
  obtain rfl := Value.matrix.inj hr
  obtain rfl := Option.some.inj hold
  exact ⟨new, _, rfl, hsucceeds, hnew, hshape, hfinite, hother 1 _ (by decide) rfl⟩

end Newton

end NewtonRaphson
