import NewtonRaphson.Proofs.Iteration

/-! # Pure evaluators

An evaluator may do anything; one that is pure computes a function of what the point holds.

* **`Evaluator.Computes f F`** — at a point that holds `m` the evaluator answers with a matrix that
  holds `F m`, and with no matrix where `F` has no value; it overwrites no matrix and leaves the
  settings alone.
* **`Evaluator.ofFunction`** — every function is computed by an evaluator.
* **`Newton.step_of_computes`** — a step with pure evaluators carries out the outcome at the values
  of their functions.
* **`Iteration.gradientNorm_of_computes`** — the norm of a pure gradient is that of its function's
  value. -/

namespace NewtonRaphson

variable {S E : Type}

namespace Evaluator

/-! ## (1) What a pure evaluator computes -/

/-- An evaluator **computes** a function of what the point holds, and does nothing else that can be
seen: matrices are at most added, never overwritten, and the settings stay. -/
structure Computes (f : Evaluator S E)
    (F : DenseMatrix S → Except Fault (DenseMatrix S)) : Prop where
  /-- The answer holds the value of the function. -/
  answers : ∀ {r : Ref} {m v : DenseMatrix S} {w : World S E}, w.store.get? r = some m →
    F m = .ok v → ∃ q w', f (.matrix r) w = (.ok (.matrix q), w') ∧ w'.store.get? q = some v
  /-- Where the function has no value, no matrix is answered. -/
  refuses : ∀ {r : Ref} {m : DenseMatrix S} {cause : Fault} {w : World S E},
    w.store.get? r = some m → F m = .error cause → ∀ q w', f (.matrix r) w ≠ (.ok (.matrix q), w')
  /-- No matrix is overwritten. -/
  leaves : ∀ x y, (f x).Leaves y
  /-- The settings are left alone. -/
  settings : ∀ x w, (f x w).2.settings = w.settings

/-- The evaluator that reads the point and adds the value of a function there. -/
def ofFunction [Scalar S] (F : DenseMatrix S → Except Fault (DenseMatrix S)) : Evaluator S E
  | .matrix r => do
    let m ← Action.read r
    let v ← F m
    return .matrix (← Action.add v)
  | .plain _ => Action.fail .badKind

variable [Scalar S]

/-- What the evaluator of a function does at a matrix. -/
theorem ofFunction_matrix (F : DenseMatrix S → Except Fault (DenseMatrix S)) (r : Ref)
    (w : World S E) :
    ofFunction F (.matrix r) w =
      match F (w.store.get r) with
      | .ok v => (.ok (.matrix w.store.size), { w with store := w.store.add v })
      | .error cause => (.error cause, w) := by
  rw [ofFunction, Action.bind_of_ok (show Action.read r w = (.ok (w.store.get r), w) from rfl)]
  rcases hv : F (w.store.get r) with cause | v
  · rfl
  · rfl

/-- **Every function is computed by an evaluator.** -/
theorem computes_ofFunction (F : DenseMatrix S → Except Fault (DenseMatrix S)) :
    (ofFunction F : Evaluator S E).Computes F where
  answers := by
    intro r m v w hm hv
    rw [ofFunction_matrix, Store.get_of_get? hm, hv]
    refine ⟨w.store.size, { w with store := w.store.add v }, rfl, ?_⟩
    exact Store.get?_add_size _ v
  refuses := by
    intro r m cause w hm hcause a w' hmatrix
    rw [ofFunction_matrix, Store.get_of_get? hm, hcause] at hmatrix
    cases hmatrix
  leaves := by
    intro x y
    cases x with
    | plain d => exact Action.leaves_fail _ y
    | matrix r =>
      refine (Action.leaves_read r y).bind fun m => Action.Leaves.bind ?_ fun v =>
        (Action.leaves_add v y).bind fun q => Action.leaves_pure _ y
      exact fun w n hn => hn
  settings := by
    intro x w
    cases x with
    | plain d => rfl
    | matrix r =>
      rw [ofFunction_matrix]
      split <;> rfl

end Evaluator

/-! ## (2) Steps with pure evaluators -/

namespace Newton

variable [SingularValues S] {df ddf : Evaluator S E}
variable {G H : DenseMatrix S → Except Fault (DenseMatrix S)}

/-- **A step with pure evaluators** at a point where both functions have values carries out the
outcome at these values, in a world where the point still holds what it held. -/
theorem step_of_computes (hdf : df.Computes G) (hddf : ddf.Computes H) {r : Ref} {w : World S E}
    {x g h : DenseMatrix S} (hx : w.store.get? r = some x) (hvector : x.isVector = true)
    (hg : G x = .ok g) (hh : H x = .ok h) :
    ∃ w₂ : World S E, w₂.store.get? r = some x ∧ w₂.settings = w.settings ∧
      step df ddf (.matrix r) w =
        match outcome w.settings.factor x g h with
        | .error cause => (.error cause, w₂)
        | .ok o => (.ok o.status, o.carryOut r x w₂) := by
  obtain ⟨a, w₁, hdf₁, ha⟩ := hdf.answers hx hg
  have hx₁ : w₁.store.get? r = some x := (hdf.leaves (.matrix r) (.matrix r)).held_of_eq hdf₁ hx
  obtain ⟨b, w₂, hddf₂, hb⟩ := hddf.answers hx₁ hh
  -- the answers are still there when the outcome is worked out
  have hx₂ : w₂.store.get? r = some x := (hddf.leaves (.matrix r) (.matrix r)).held_of_eq hddf₂ hx₁
  have ha₂ : w₂.store.get? a = some g := (hddf.leaves (.matrix r) (.matrix a)).held_of_eq hddf₂ ha
  have hsettings : w₂.settings = w.settings := by
    have h₁ := hdf.settings (.matrix r) w
    have h₂ := hddf.settings (.matrix r) w₁
    rw [hdf₁] at h₁
    rw [hddf₂] at h₂
    exact h₂.trans h₁
  have hvector' : (w.store.get r).isVector = true := by rwa [Store.get_of_get? hx]
  have hstep := step_of_answers hvector' hdf₁ hddf₂
  rw [hsettings, Store.get_of_get? hx₂, Store.get_of_get? ha₂, Store.get_of_get? hb] at hstep
  exact ⟨w₂, hx₂, hsettings, hstep⟩

/-- A step with pure evaluators that returns a status was taken at a column vector where both
functions have values. -/
theorem exists_values_of_step_eq_ok (hdf : df.Computes G) (hddf : ddf.Computes H) {r : Ref}
    {w w' : World S E} {x : DenseMatrix S} {status : Status} (hx : w.store.get? r = some x)
    (hstep : step df ddf (.matrix r) w = (.ok status, w')) :
    ∃ g h, x.isVector = true ∧ G x = .ok g ∧ H x = .ok h := by
  obtain ⟨_, a, b, o, w₁, w₂, hr, hvector, hdf₁, hddf₂, -⟩ := step_eq_ok hstep
  obtain rfl := Value.matrix.inj hr
  rw [Store.get_of_get? hx] at hvector
  have hx₁ : w₁.store.get? r = some x := (hdf.leaves (.matrix r) (.matrix r)).held_of_eq hdf₁ hx
  rcases hg : G x with cause | g
  · exact absurd hdf₁ (hdf.refuses hx hg a w₁)
  · rcases hh : H x with cause | h
    · exact absurd hddf₂ (hddf.refuses hx₁ hh b w₂)
    · exact ⟨g, h, hvector, rfl, rfl⟩

end Newton

/-- The norm of a pure gradient is that of its function's value; the point keeps what it holds. -/
theorem Iteration.gradientNorm_of_computes [Scalar S] {df : Evaluator S E}
    {G : DenseMatrix S → Except Fault (DenseMatrix S)} (hdf : df.Computes G) {r : Ref}
    {w : World S E} {x g : DenseMatrix S} (hx : w.store.get? r = some x) (hg : G x = .ok g) :
    ∃ w' : World S E, gradientNorm df (.matrix r) w = (.ok g.norm, w') ∧ w'.store.get? r = some x ∧
      w'.settings = w.settings := by
  obtain ⟨a, w', hdf', ha⟩ := hdf.answers hx hg
  have hsettings := hdf.settings (.matrix r) w
  rw [hdf'] at hsettings
  refine ⟨w', gradientNorm_eq_ok_iff.mpr ⟨a, hdf', ?_⟩, ?_, hsettings⟩
  · rw [Store.get_of_get? ha]
  · exact (hdf.leaves (.matrix r) (.matrix r)).held_of_eq hdf' hx

end NewtonRaphson
