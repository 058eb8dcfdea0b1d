import Mathlib.Data.Set.Insert
import NewtonRaphson.Demo
import NewtonRaphson.Proofs.DenseMatrix.Representable
import NewtonRaphson.Proofs.Differences.SideBySide
import NewtonRaphson.Proofs.Frame
import NewtonRaphson.Session.Recipe

/-! # What the functions of a session leave alone

Recipes, objectives and differences make matrices of their own but overwrite none; a search
overwrites its point. Both are said by one frame with the set of matrices that may be overwritten:

* **`World.Within touched w w'`** — of the matrices of `w` only those in `touched` may be
  overwritten, and each keeps its precision and shape; entries that belong to their precision do so
  afterwards, also those of matrices that are new; settings and names are the same.
* **`World.isFrame_within`** — this is a frame; `World.Within.of_fresh` says that overwriting a new
  matrix overwrites none.
* **`Recipe.stays_evaluator`**, **`CallbackPlan.stays_callback`**, **`Demo.stays_transcript`** — the
  functions of a session stay in such a frame, by induction on the recipe. -/

namespace NewtonRaphson

/-- The matrices of a store **belong to their precisions**. -/
def Store.Representable (s : Store Float) : Prop := ∀ r m, s.get? r = some m → m.Representable

/-- So does what any reference reads as. -/
theorem Store.Representable.get {s : Store Float} (h : s.Representable) (r : Ref) :
    (s.get r).Representable := by
  unfold Store.get
  rcases hr : s.get? r with _ | m
  · exact (DenseMatrix.faithful_zeros .double Nat.one_pos Nat.one_pos).representable
  · exact h r m hr

namespace World

/-- What may come of a world while only some matrices are **touched**. -/
structure Within (touched : Set Ref) (w w' : World Float Caller) : Prop where
  /-- The other matrices hold what they held. -/
  held : ∀ r m, r ∉ touched → w.store.get? r = some m → w'.store.get? r = some m
  /-- Every matrix is there still, with its precision and shape. -/
  follows : ∀ r m, w.store.get? r = some m → ∃ m', w'.store.get? r = some m' ∧ m.Follows m'
  /-- Entries belong to their precisions if they did. -/
  representable : w.store.Representable → w'.store.Representable
  /-- The settings are the same. -/
  settings : w'.settings = w.settings
  /-- The names stand for what they stood for. -/
  registers : w'.caller.registers = w.caller.registers

variable {touched : Set Ref} {w w' w'' : World Float Caller}

/-! ## (1) The frame -/

/-- A world with the same matrices, settings and names is within every frame. -/
theorem Within.of_eq (hstore : w'.store = w.store) (hsettings : w'.settings = w.settings)
    (hregisters : w'.caller.registers = w.caller.registers) : Within touched w w' where
  held r m _ hm := by rw [hstore]; exact hm
  follows r m hm := ⟨m, by rw [hstore]; exact hm, .refl m⟩
  representable h := by rw [hstore]; exact h
  settings := hsettings
  registers := hregisters

theorem Within.trans (h : Within touched w w') (h' : Within touched w' w'') :
    Within touched w w'' where
  held r m hr hm := h'.held r m hr (h.held r m hr hm)
  follows r m hm := by
    obtain ⟨m', hm', hfollows⟩ := h.follows r m hm
    obtain ⟨m'', hm'', hfollows'⟩ := h'.follows r m' hm'
    exact ⟨m'', hm'', hfollows.trans hfollows'⟩
  representable hw := h'.representable (h.representable hw)
  settings := h'.settings.trans h.settings
  registers := h'.registers.trans h.registers

/-- **Going on within a set of matrices is a frame.** -/
theorem isFrame_within (touched : Set Ref) : World.IsFrame (Within touched) where
  refl _ := .of_eq rfl rfl rfl
  trans := .trans
  journal _ _ := .of_eq rfl rfl rfl

/-- What touches some matrices touches no more than these and others. -/
theorem Within.mono {touched' : Set Ref} (h : Within touched w w') (hsub : touched ⊆ touched') :
    Within touched' w w' :=
  { h with held := fun r m hr hm => h.held r m (fun hmem => hr (hsub hmem)) hm }

theorem Within.of_empty (h : Within ∅ w w') : Within touched w w' :=
  h.mono (Set.empty_subset touched)

/-- Matrices are never removed. -/
theorem Within.size_le (h : Within touched w w') : w.store.size ≤ w'.store.size := by
  by_contra hlt
  -- the first reference beyond the later store would have been in the earlier one
  obtain ⟨m', hm', -⟩ := h.follows _ _ (Store.get?_of_lt (Nat.lt_of_not_le hlt))
  exact Nat.lt_irrefl _ (Store.lt_size_of_get? hm')

/-- **Overwriting a new matrix** overwrites none that was there. -/
theorem Within.of_fresh {r : Ref} (h : Within {r} w w') (hr : w.store.size ≤ r) :
    Within ∅ w w' := by
  refine { h with held := fun q m _ hm => h.held q m (fun hq => ?_) hm }
  have hlt : q < w.store.size := Store.lt_size_of_get? hm
  exact Nat.not_le_of_lt hlt (Set.mem_singleton_iff.mp hq ▸ hr)

/-- Adding a matrix afterwards touches none. -/
theorem Within.add (h : Within touched w w') {m : DenseMatrix Float}
    (hm : w.store.Representable → m.Representable) :
    Within touched w { w' with store := w'.store.add m } where
  held r n hr hn := by
    have hn' := h.held r n hr hn
    rw [Store.get?_add_of_lt (Store.lt_size_of_get? hn')]
    exact hn'
  follows r n hn := by
    obtain ⟨n', hn', hfollows⟩ := h.follows r n hn
    refine ⟨n', ?_, hfollows⟩
    rw [Store.get?_add_of_lt (Store.lt_size_of_get? hn')]
    exact hn'
  representable hw r n hn := by
    rw [Store.get?_add] at hn
    split at hn
    · cases hn
      exact hm hw
    · exact h.representable hw r n hn
  settings := h.settings
  registers := h.registers

/-- So does adding a matrix at once. -/
theorem within_add {m : DenseMatrix Float} (hm : w.store.Representable → m.Representable) :
    Within touched w { w with store := w.store.add m } :=
  Within.add (.of_eq rfl rfl rfl) hm

/-- Overwriting a matrix by what may follow it touches it alone. -/
theorem within_put {r : Ref} {m : DenseMatrix Float} (hr : r ∈ touched)
    (hfollows : (w.store.get r).Follows m) (hm : w.store.Representable → m.Representable) :
    Within touched w { w with store := w.store.put r m } where
  held q n hq hn := by
    have hne : r ≠ q := fun h => hq (h ▸ hr)
    rw [Store.get?_put, if_neg hne]
    exact hn
  follows q n hn := by
    by_cases hq : r = q
    · subst hq
      refine ⟨m, ?_, Store.get_of_get? hn ▸ hfollows⟩
      rw [Store.get?_put, if_pos rfl, if_pos (Store.lt_size_of_get? hn)]
    · refine ⟨n, ?_, .refl n⟩
      rw [Store.get?_put, if_neg hq]
      exact hn
  representable hw q n hn := by
    rw [Store.get?_put] at hn
    split at hn
    · split at hn
      · cases hn
        exact hm hw
      · cases hn
    · exact hw q n hn
  settings := rfl
  registers := rfl

/-- **A point may move**: precision and shape of the new point are those of the old one, and its
entries were rounded. -/
theorem letsMove_within {x : Value} (hx : ∀ r, x = .matrix r → r ∈ touched) :
    Newton.LetsMove (Within touched) x := by
  intro w r g h point way hr hmoved
  obtain ⟨-, -, -, -, -, hpoint, -⟩ := Newton.outcome_eq_moved_iff.mp hmoved
  have hfollows : (w.store.get r).Follows point := (DenseMatrix.add_eq_ok_iff.mp hpoint).2.follows
  exact within_put (hx r hr) hfollows fun _ => (DenseMatrix.faithful_of_add hpoint).representable

end World

open World (Within isFrame_within)

namespace Action

variable {touched : Set Ref}

/-- Adding a matrix whose entries were rounded stays within every set. -/
theorem stays_add {m : DenseMatrix Float} (hm : m.Representable) :
    (add m : SessionAction Ref).Stays (Within touched) :=
  fun _ => World.within_add fun _ => hm

/-- Answering with a new matrix stays within every set if its entries were rounded. -/
theorem stays_answer {a : SessionAction (DenseMatrix Float)} (ha : a.Stays (Within touched))
    (hm : a.Yields DenseMatrix.Representable) :
    (do return Value.matrix (← add (← a)) : SessionAction Value).Stays (Within touched) :=
  have hR := isFrame_within touched
  ha.bind_of_yields hR hm fun _ hm => (stays_add hm).bind hR fun r => stays_pure hR (Value.matrix r)

/-- Overwriting a matrix by a value of it touches it alone, if this may follow the matrix and has
entries that belong to its precision if the matrix has. -/
theorem stays_overwrite {r : Ref} {f : DenseMatrix Float → Except Fault (DenseMatrix Float)}
    (hr : r ∈ touched)
    (hf : ∀ m c, f m = .ok c → m.Follows c ∧ (m.Representable → c.Representable)) :
    (do write r (← f (← read r)) : SessionAction Unit).Stays (Within touched) := by
  intro w
  rcases hc : f (w.store.get r) with cause | c
  · rw [bind_of_ok (show read r w = (.ok (w.store.get r), w) from rfl),
      bind_of_error (show (liftM (f (w.store.get r)) : SessionAction _) w =
        (.error cause, w) by rw [hc]; rfl)]
    exact (isFrame_within touched).refl w
  · rw [bind_of_ok (show read r w = (.ok (w.store.get r), w) from rfl),
      bind_of_ok (show (liftM (f (w.store.get r)) : SessionAction _) w =
        (.ok c, w) by rw [hc]; rfl)]
    obtain ⟨hfollows, hrepresentable⟩ := hf _ c hc
    exact World.within_put hr hfollows fun hw => hrepresentable (hw.get r)

/-- Counting a call changes neither matrices nor names. -/
theorem stays_countCall (place : List Nat) : (countCall place).Stays (Within touched) :=
  fun _ => .of_eq rfl rfl rfl

theorem stays_matrixOf (name : String) : (matrixOf name).Stays (Within touched) := by
  have hR := isFrame_within touched
  refine Stays.bind hR ?_ fun r => stays_read hR r
  exact (stays_look hR).bind hR fun w => stays_ofExcept hR _

end Action

/-! ## (2) Differences -/

namespace Differences

variable {touched : Set Ref} {f : Objective Float Caller}

section Points

variable (hf : ∀ r, (f r).Stays (Within touched))
include hf

theorem stays_valueAt (p : Precision) (n : Nat) (hn : 0 < n) (x : Vector Float n) :
    (valueAt f p hn x).Stays (Within touched) :=
  (Action.stays_add (DenseMatrix.faithful_ofFn p hn Nat.one_pos _).representable).bind
    (isFrame_within touched) hf

/-- **A gradient by differences** makes matrices of its own and touches none. -/
theorem stays_gradient (width : Except Fault (Width Float)) (x : Value) :
    (gradient f width x).Stays (Within touched) :=
  stays_gradient_of_valueAt (isFrame_within touched) (stays_valueAt hf) width x

/-- So does a Hessian by differences. -/
theorem stays_hessian (width : Except Fault (Width Float)) (x : Value) :
    (hessian f width x).Stays (Within touched) :=
  stays_hessian_of_valueAt (isFrame_within touched) (stays_valueAt hf) width x

end Points

/-- A gradient by differences is faithful to the precision of its point. -/
theorem faithful_of_gradient {width : Except Fault (Width Float)} {x : Value}
    {w w' : World Float Caller} {m : DenseMatrix Float} (h : gradient f width x w = (.ok m, w')) :
    ∃ r, x = .matrix r ∧ m.Faithful (w.store.get r).precision := by
  obtain ⟨width, w₁, hwidth, h⟩ := Action.bind_eq_ok_iff.mp h
  obtain ⟨point, w₂, hpoint, h⟩ := Action.bind_eq_ok_iff.mp h
  obtain ⟨coordinates, w₃, -, h⟩ := Action.bind_eq_ok_iff.mp h
  obtain ⟨values, w₄, -, hm⟩ := Action.bind_eq_ok_iff.mp h
  cases hm
  cases hwidth
  cases x with
  | matrix r =>
    cases hpoint
    exact ⟨r, rfl, DenseMatrix.faithful_ofFn _ _ _ _⟩
  | plain d => cases hpoint

/-- So is a Hessian by differences. -/
theorem faithful_of_hessian {width : Except Fault (Width Float)} {x : Value}
    {w w' : World Float Caller} {m : DenseMatrix Float} (h : hessian f width x w = (.ok m, w')) :
    ∃ r, x = .matrix r ∧ m.Faithful (w.store.get r).precision := by
  obtain ⟨width, w₁, hwidth, h⟩ := Action.bind_eq_ok_iff.mp h
  obtain ⟨point, w₂, hpoint, h⟩ := Action.bind_eq_ok_iff.mp h
  obtain ⟨coordinates, w₃, -, h⟩ := Action.bind_eq_ok_iff.mp h
  obtain ⟨centre, w₄, -, h⟩ := Action.bind_eq_ok_iff.mp h
  obtain ⟨rows, w₅, -, hm⟩ := Action.bind_eq_ok_iff.mp h
  cases hm
  cases hwidth
  cases x with
  | matrix r =>
    cases hpoint
    exact ⟨r, rfl, DenseMatrix.faithful_ofFn _ _ _ _⟩
  | plain d => cases hpoint

theorem yields_gradient (f : Objective Float Caller) (width : Except Fault (Width Float))
    (x : Value) : (gradient f width x).Yields DenseMatrix.Representable := by
  intro w m w' h
  obtain ⟨r, -, hm⟩ := faithful_of_gradient h
  exact hm.representable

theorem yields_hessian (f : Objective Float Caller) (width : Except Fault (Width Float))
    (x : Value) : (hessian f width x).Yields DenseMatrix.Representable := by
  intro w m w' h
  obtain ⟨r, -, hm⟩ := faithful_of_hessian h
  exact hm.representable

end Differences

/-! ## (3) Recipes -/

namespace Recipe

variable {touched : Set Ref}

theorem stays_coordinatesOf (x : Value) : (coordinatesOf x).Stays (Within touched) := by
  have hR := isFrame_within touched
  cases x with
  | matrix r => exact (Action.stays_read hR r).bind hR fun m => Action.stays_pure hR _
  | plain d => exact Action.stays_pure hR _

theorem stays_operandOf (x : Value) : (operandOf x).Stays (Within touched) := by
  have hR := isFrame_within touched
  cases x with
  | matrix r => exact (Action.stays_read hR r).bind hR fun m => Action.stays_pure hR _
  | plain d => exact Action.stays_pure hR _

theorem stays_objectiveOf (place : List Nat) (e : Expression) (r : Ref) :
    (objectiveOf place e r).Stays (Within touched) := by
  have hR := isFrame_within touched
  refine (Action.stays_countCall place).bind hR fun _ => ?_
  exact (stays_coordinatesOf (.matrix r)).bind hR fun coordinates => Action.stays_ofExcept hR _

mutual

/-- **The evaluator of a recipe** makes matrices of its own and touches none. -/
theorem stays_evaluator (recipe : Recipe) (place : List Nat) (x : Value) :
    (evaluator recipe place x).Stays (Within touched) := by
  have hR := isFrame_within touched
  unfold evaluator
  refine (Action.stays_countCall place).bind hR fun earlier => ?_
  cases recipe with
  | vector entries choice =>
    refine (stays_coordinatesOf x).bind hR fun coordinates => ?_
    refine (Action.stays_ofExcept hR _).bind hR fun values => ?_
    refine (Action.stays_resolve hR choice).bind hR fun p => ?_
    refine Action.stays_answer (Action.stays_ofExcept hR _) (Action.yields_ofExcept fun m hm => ?_)
    exact (DenseMatrix.faithful_of_column hm).representable
  | rows entries choice =>
    refine (stays_coordinatesOf x).bind hR fun coordinates => ?_
    refine (Action.stays_ofExcept hR _).bind hR fun values => ?_
    refine (Action.stays_resolve hR choice).bind hR fun p => ?_
    refine Action.stays_answer (Action.stays_ofExcept hR _) (Action.yields_ofExcept fun m hm => ?_)
    exact (DenseMatrix.faithful_of_ofDatum hm).representable
  | affine factor offset =>
    refine (Action.stays_matrixOf factor).bind hR fun a => ?_
    refine (stays_operandOf x).bind hR fun operand => ?_
    refine (Action.stays_ofExcept hR _).bind hR fun product => ?_
    refine (Action.stays_matrixOf offset).bind hR fun b => ?_
    refine Action.stays_answer (Action.stays_ofExcept hR _) (Action.yields_ofExcept fun m hm => ?_)
    exact (DenseMatrix.faithful_of_sub hm).representable
  | register name =>
    refine Action.Stays.bind hR ?_ fun r => Action.stays_pure hR (Value.matrix r)
    exact (Action.stays_look hR).bind hR fun w => Action.stays_ofExcept hR _
  | point => exact Action.stays_pure hR x
  | gradient objective width =>
    exact Action.stays_answer (Differences.stays_gradient (stays_objectiveOf _ objective) _ x)
      (Differences.yields_gradient _ _ x)
  | hessian objective width =>
    exact Action.stays_answer (Differences.stays_hessian (stays_objectiveOf _ objective) _ x)
      (Differences.yields_hessian _ _ x)
  | plain d => exact Action.stays_pure hR (Value.plain d)
  | abandon => exact Action.stays_fail hR _
  | sequence recipes => exact stays_evaluatorAt recipes place 0 earlier x

/-- So does whichever recipe of a sequence is due. -/
theorem stays_evaluatorAt (recipes : List Recipe) (place : List Nat) (index skip : Nat)
    (x : Value) : (evaluatorAt recipes place index skip x).Stays (Within touched) := by
  match recipes, skip with
  | [], _ =>
    unfold evaluatorAt
    exact Action.stays_fail (isFrame_within touched) _
  | [r], _ =>
    unfold evaluatorAt
    exact stays_evaluator r (place ++ [index]) x
  | r :: _ :: _, 0 =>
    unfold evaluatorAt
    exact stays_evaluator r (place ++ [index]) x
  | _ :: r :: rest, skip + 1 =>
    unfold evaluatorAt
    exact stays_evaluatorAt (r :: rest) place (index + 1) skip x

end

end Recipe

/-! ## (4) Callbacks -/

/-- **A callback** touches at most the point that it is told, and nothing if it is not planned to
overwrite an entry. -/
theorem CallbackPlan.stays_callback {touched : Set Ref} (plan : CallbackPlan) {x : Value}
    (hx : plan.overwriteAt = none ∨ ∀ r, x = .matrix r → r ∈ touched) (n : Nat) (status : Status) :
    (plan.callback n x status).Stays (Within touched) := by
  have hR := isFrame_within touched
  have hsight (see : Caller → Sighting) :
      (Action.onCaller fun c => { c with sightings := c.sightings ++ [see c] } :
        SessionAction Unit).Stays (Within touched) :=
    fun _ => .of_eq rfl rfl rfl
  -- giving up comes before overwriting
  have habandon {rest : SessionAction Unit} (hrest : rest.Stays (Within touched)) :
      (if plan.abandonAt = some (n : Int) then Action.fail .abandoned >>= fun _ : Unit => rest
        else rest).Stays (Within touched) := by
    split
    · exact (Action.stays_fail hR _).bind hR fun _ => hrest
    · exact hrest
  cases x with
  | plain d =>
    refine (Action.stays_pure hR none).bind hR fun point => ?_
    refine (hsight fun _ => ⟨n, point, status⟩).bind hR fun _ => habandon ?_
    split
    · exact Action.stays_fail hR _
    · exact Action.stays_pure hR ()
  | matrix r =>
    refine ((Action.stays_read hR r).map hR some).bind hR fun point => ?_
    refine (hsight fun _ => ⟨n, point, status⟩).bind hR fun _ => habandon ?_
    split
    · rename_i hoverwrite
      have hr : r ∈ touched := by
        rcases hx with hnone | hr
        · rw [hnone] at hoverwrite
          cases hoverwrite
        · exact hr r rfl
      exact Action.stays_overwrite hr fun m c hc => DenseMatrix.follows_of_setEntry hc
    · exact Action.stays_pure hR ()

/-! ## (5) The demonstration -/

namespace Demo

/-- A new pair of coordinates touches nothing, and is a new matrix. -/
theorem stays_pair {touched : Set Ref} (x y : Float) :
    (pair x y : SessionAction Ref).Stays (Within touched) := by
  have hR := isFrame_within touched
  refine (Action.stays_look hR).bind hR fun w => ?_
  refine (Action.stays_ofExcept hR _).bind_of_yields hR (Action.yields_ofExcept fun m hm => ?_)
    fun m hm => Action.stays_add hm
  exact (DenseMatrix.faithful_of_column hm).representable

theorem size_le_of_pair {x y : Float} {w w' : World Float Caller} {r : Ref}
    (h : pair x y w = (.ok r, w')) : w.store.size ≤ r := by
  obtain ⟨_, _, hlook, h⟩ := Action.bind_eq_ok_iff.mp h
  obtain ⟨m, _, hcolumn, hadd⟩ := Action.bind_eq_ok_iff.mp h
  cases hlook
  cases hcolumn
  cases hadd
  exact Nat.le_refl _

theorem stays_gradient {touched : Set Ref} (x : Value) :
    (gradient x : SessionAction Value).Stays (Within touched) := by
  have hR := isFrame_within touched
  cases x with
  | plain d => exact Action.stays_fail hR _
  | matrix r =>
    refine (Action.stays_read hR r).bind hR fun m => ?_
    refine (Action.stays_ofExcept hR _).bind hR fun x => ?_
    refine (Action.stays_ofExcept hR _).bind hR fun y => ?_
    exact (stays_pair _ _).bind hR fun q => Action.stays_pure hR (Value.matrix q)

theorem stays_hessian {touched : Set Ref} (x : Value) :
    (hessian x : SessionAction Value).Stays (Within touched) := by
  have hR := isFrame_within touched
  refine (Action.stays_look hR).bind hR fun w => ?_
  refine Action.stays_answer (Action.stays_ofExcept hR _) (Action.yields_ofExcept fun m hm => ?_)
  exact (DenseMatrix.faithful_of_ofList hm).representable

/-- **The demonstration** overwrites only a matrix of its own. -/
theorem stays_transcript : (transcript : SessionAction String).Stays (Within ∅) := by
  intro w
  rcases hpair : (pair (-3.0) (-2.0) : SessionAction Ref) w with ⟨cause | r, w₁⟩
  · rw [transcript, Action.bind_of_error hpair]
    exact (stays_pair _ _).of_eq hpair
  · rw [transcript, Action.bind_of_ok hpair]
    have hR := isFrame_within {r}
    have hfresh : Within {r} w w₁ := (stays_pair _ _).of_eq hpair
    refine (hfresh.trans ?_).of_fresh (size_le_of_pair hpair)
    have hline : (line (.matrix r) : SessionAction String).Stays (Within {r}) := by
      refine (Iteration.stays_copyOf hR _).bind hR fun point => ?_
      refine (Iteration.stays_gradientNorm hR (stays_gradient _)).bind hR fun norm => ?_
      exact Action.stays_pure hR _
    have hmove : Newton.LetsMove (Within {r}) (.matrix r) :=
      World.letsMove_within fun q hq => Value.matrix.inj hq ▸ rfl
    have hdescend :=
      Iteration.stays_descend hR (stays_gradient _) (stays_hessian _) hmove hline tolerance 100
      .success
    refine (hdescend.bind hR fun descent => ?_) w₁
    refine (Action.stays_read hR r).bind hR fun m => ?_
    refine (Action.stays_ofExcept hR _).bind hR fun x => ?_
    exact (Action.stays_ofExcept hR _).bind hR fun y => Action.stays_pure hR _

end Demo

end NewtonRaphson
