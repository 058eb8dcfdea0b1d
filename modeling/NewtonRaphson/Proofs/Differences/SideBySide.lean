import NewtonRaphson.Proofs.Purity

/-! # Differences side by side

Differences ask their objective at new points only, and compute with the answers. So two of them at
points that hold the same come to the same wherever the values of the objective do.

* **`Differences.same_gradient`**, **`Differences.same_hessian`** — gradients and Hessians come to
  the same, if the values of the objective do.
* **`Differences.stays_gradient_of_valueAt`**, **`Differences.stays_hessian_of_valueAt`** — compared
  with themselves, they stay in the frames of these values.
* **`Differences.same_valueAt_of_pure`** — the values of a pure objective do.
* **`Differences.fst_gradient_of_pure`**, **`Differences.fst_hessian_of_pure`** — so gradient and
  Hessian of a pure objective depend on what the point holds, and on nothing else of the world.
* **`Differences.pure_gradientEvaluator`**, **`Differences.pure_hessianEvaluator`** — as evaluators
  they are pure. -/

namespace NewtonRaphson.Differences

open NewtonRaphson.Action (Same same_ofExcept same_pure same_mapM)

variable {S E : Type} [Scalar S]

/-! ## (1) Differences of values that are the same -/

section Values

variable {J : World S E → World S E → Prop} {f g : Objective S E}
  (hvalue : ∀ (p : Precision) (n : Nat) (hn : 0 < n) (x : Vector S n),
    Same J (valueAt f p hn x) (valueAt g p hn x))

section Derivatives

variable (width : Width S) (p : Precision) {n : Nat} (hn : 0 < n) (x : Vector S n)
include hvalue

theorem same_partialDerivative (i : Fin n) :
    Same J (partialDerivative f width p hn x i) (partialDerivative g width p hn x i) := by
  -- offsets, divisors and quotients are computed without looking at the world
  refine (same_ofExcept width.offset).bind fun offset => ?_
  refine (hvalue p n hn _).bind fun up => ?_
  refine (hvalue p n hn _).bind fun down => ?_
  exact (same_ofExcept width.doubled).bind fun doubled => same_ofExcept _

theorem same_secondDerivative (centre : S) (i : Fin n) :
    Same J (secondDerivative f width p hn x centre i)
      (secondDerivative g width p hn x centre i) := by
  refine (same_ofExcept width.offset).bind fun offset => ?_
  refine (hvalue p n hn _).bind fun up => ?_
  refine (hvalue p n hn _).bind fun down => ?_
  exact (same_ofExcept width.squared).bind fun squared => same_ofExcept _

theorem same_mixedDerivative (i j : Fin n) :
    Same J (mixedDerivative f width p hn x i j) (mixedDerivative g width p hn x i j) := by
  refine (same_ofExcept width.offset).bind fun offset => ?_
  refine (hvalue p n hn _).bind fun pp => ?_
  refine (hvalue p n hn _).bind fun pm => ?_
  refine (hvalue p n hn _).bind fun mp => ?_
  refine (hvalue p n hn _).bind fun mm => ?_
  exact (same_ofExcept width.fourSquared).bind fun fourSquared => same_ofExcept _

theorem same_upperRow (centre : S) (i : Fin n) :
    Same J (upperRow f width p hn x centre i) (upperRow g width p hn x centre i) := by
  refine (same_secondDerivative hvalue width p hn x centre i).bind fun diagonal => ?_
  refine (same_mapM (same_mixedDerivative hvalue width p hn x i) _).bind fun rest => ?_
  exact same_pure (diagonal :: rest)

end Derivatives

section Points

variable {y z : Value} (hpoint : Same J (pointOf y) (pointOf z)) (width : Except Fault (Width S))
include hvalue hpoint

/-- **Gradients by differences** come to the same, if points and values do. -/
theorem same_gradient : Same J (gradient f width y) (gradient g width z) := by
  refine (same_ofExcept width).bind fun width => hpoint.bind fun m => ?_
  refine (same_ofExcept (coordinates m)).bind fun x => ?_
  refine (same_mapM (same_partialDerivative hvalue width m.precision m.rows_pos x) _).bind
    fun values => ?_
  exact same_pure _

/-- So do **Hessians by differences**. -/
theorem same_hessian : Same J (hessian f width y) (hessian g width z) := by
  refine (same_ofExcept width).bind fun width => hpoint.bind fun m => ?_
  refine (same_ofExcept (coordinates m)).bind fun x => ?_
  refine (hvalue m.precision m.rows m.rows_pos x).bind fun centre => ?_
  refine (same_mapM (same_upperRow hvalue width m.precision m.rows_pos x centre) _).bind
    fun rows => ?_
  exact same_pure _

end Points

end Values

/-! ## (2) Frames -/

section Frame

variable {R : World S E → World S E → Prop} (hR : World.IsFrame R) {f : Objective S E}
  (hvalue : ∀ (p : Precision) (n : Nat) (hn : 0 < n) (x : Vector S n), (valueAt f p hn x).Stays R)
  (width : Except Fault (Width S)) (y : Value)
include hR

theorem stays_pointOf : (pointOf y : Action S E (DenseMatrix S)).Stays R := by
  cases y with
  | matrix r => exact Action.stays_read hR r
  | plain d => exact Action.stays_fail hR _

include hvalue

/-- **A gradient by differences** stays in the frames of the values of its objective. -/
theorem stays_gradient_of_valueAt : (gradient f width y).Stays R :=
  (Action.stays_iff_same hR).mpr fun u => same_gradient
    (fun p n hn x => (Action.stays_iff_same hR).mp (hvalue p n hn x) u)
    ((Action.stays_iff_same hR).mp (stays_pointOf hR y) u) width

/-- So does **a Hessian by differences**. -/
theorem stays_hessian_of_valueAt : (hessian f width y).Stays R :=
  (Action.stays_iff_same hR).mpr fun u => same_hessian
    (fun p n hn x => (Action.stays_iff_same hR).mp (hvalue p n hn x) u)
    ((Action.stays_iff_same hR).mp (stays_pointOf hR y) u) width

end Frame

/-! ## (3) Pure objectives -/

variable {known : Constants S} {f : Objective S E} {y z : Value} {a b : S}

/-- Points that hold the same are the same matrix, or are refused alike. -/
theorem same_pointOf :
    Same (World.Paired known y z a b : World S E → World S E → Prop) (pointOf y) (pointOf z) := by
  intro w v h
  rcases h.alike with @⟨r, q, m, hr, hq⟩ | d
  · show Action.Agreement _ _ (.ok (w.store.get r), w) (.ok (v.store.get q), v)
    rw [Store.get_of_get? hr, Store.get_of_get? hq]
    exact .returned h rfl
  · exact .refused h

/-- Asking a pure objective at a new point makes the world grow. -/
theorem stays_valueAt_grows (hf : f.Pure known) (p : Precision) (n : Nat) (hn : 0 < n)
    (x : Vector S n) : (valueAt f p hn x).Stays World.Grows :=
  (Action.stays_add_grows _).bind World.isFrame_grows fun r w =>
    ⟨fun y m hy => hf.leaves r y w m hy, hf.settings r w⟩

/-- **The values of a pure objective** at a new point are the same in both worlds, and the worlds
stay a pair. -/
theorem same_valueAt_of_pure (hf : f.Pure known) (p : Precision) (n : Nat) (hn : 0 < n)
    (x : Vector S n) : Same (World.Paired known y z a b) (valueAt f p hn x) (valueAt f p hn x) := by
  intro w v h
  have hgrows := stays_valueAt_grows hf p n hn x
  refine Action.agreement_eq_iff.mpr ⟨?_, h.of_grows (hgrows w) (hgrows v)⟩
  -- the new points are at references of their own, but hold the same
  have hadded :=
    Action.stays_add_grows (S := S) (E := E) (.ofFn p hn Nat.one_pos fun i _ => x.get i)
  exact hf.answers (h.holds.of_grows (hadded w)) (h.holds'.of_grows (hadded v))
    (Store.get?_add_size _ _) (Store.get?_add_size _ _)

section Worlds

variable (hf : f.Pure known) (width : Except Fault (Width S)) {w v : World S E} (hw : w.Holds known)
  (hv : v.Holds known) (h : w.Alike v y z)
include hf hw hv h

/-- **The gradient of a pure objective** depends on what the point holds, and on nothing else of the
world. -/
theorem fst_gradient_of_pure : (gradient f width y w).1 = (gradient f width z v).1 :=
  (Action.agreement_eq_iff.mp
    (same_gradient (same_valueAt_of_pure hf) same_pointOf width w v ⟨hw, hv, h, rfl, rfl⟩)).1

/-- So does **the Hessian of a pure objective**. -/
theorem fst_hessian_of_pure : (hessian f width y w).1 = (hessian f width z v).1 :=
  (Action.agreement_eq_iff.mp
    (same_hessian (same_valueAt_of_pure hf) same_pointOf width w v ⟨hw, hv, h, rfl, rfl⟩)).1

end Worlds

/-! ## (4) Derivatives of pure objectives are pure -/

/-- **The gradient of a pure objective by differences is a pure evaluator.** -/
theorem pure_gradientEvaluator (hf : f.Pure known) (width : Width S) :
    (gradientEvaluator f width).Pure known :=
  Evaluator.pure_of_added (fst_gradient_of_pure hf _)
    (stays_gradient_of_valueAt World.isFrame_grows (stays_valueAt_grows hf) _)

/-- **So is its Hessian.** -/
theorem pure_hessianEvaluator (hf : f.Pure known) (width : Width S) :
    (hessianEvaluator f width).Pure known :=
  Evaluator.pure_of_added (fst_hessian_of_pure hf _)
    (stays_hessian_of_valueAt World.isFrame_grows (stays_valueAt_grows hf) _)

end NewtonRaphson.Differences
