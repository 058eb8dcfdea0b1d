import NewtonRaphson.Differences
import NewtonRaphson.Proofs.Action
import NewtonRaphson.Proofs.Double.Rounding

/-! # Where differences are defined

A width of differences is accepted if it is above zero, but the divisors are rounded functions of
it: twice the width is not lost, its square may be.

* **`Action.Ends`** — how an action ends, if this is the same in all worlds.
* **`Differences.divisionFault?`** — the fault of a division by a divisor that may itself be
  refused.
* **`Differences.endsIn_gradient`**, **`Differences.endsIn_hessian`** — where the objective returns,
  gradients and Hessians end as the divisions by their divisors do.
* **`Differences.divisionFault?_square`** — when the square of a width divides.
* **`Differences.ends_of_width`** — for which widths there is a gradient, and for which a
  Hessian. -/

namespace NewtonRaphson

variable {S E α β : Type}

/-! ## (1) How actions end -/

/-- The fault of an outcome, if it is refused. -/
def faultOf? : Except Fault α → Option Fault
  | .ok _ => none
  | .error cause => some cause

namespace Action

/-- An action **ends** in one way in all worlds: it returns, or it is refused for a cause. -/
def Ends (fault? : Option Fault) (a : Action S E α) : Prop := ∀ w, faultOf? (a w).1 = fault?

theorem ends_pure (v : α) : (pure v : Action S E α).Ends none := fun _ => rfl

theorem ends_ofExcept (x : Except Fault α) : (ofExcept x : Action S E α).Ends (faultOf? x) :=
  fun _ => rfl

/-- A value that is given runs its continuation. -/
theorem bind_given (v : α) (f : α → Action S E β) (w : World S E) :
    ((liftM (Except.ok v : Except Fault α) : Action S E α) >>= f) w = f v w := rfl

theorem ends_add (m : DenseMatrix S) : (add m : Action S E Ref).Ends none := fun _ => rfl

/-- What an action returns that always returns. -/
theorem Ends.exists_eq_ok {a : Action S E α} (ha : a.Ends none) (w : World S E) :
    ∃ v w', a w = (.ok v, w') := by
  have hw := ha w
  rcases h : a w with ⟨cause | v, w'⟩
  · rw [h] at hw
    cases hw
  · exact ⟨v, w', rfl⟩

/-- An action that is always refused. -/
theorem Ends.exists_eq_error {a : Action S E α} {cause : Fault} (ha : a.Ends (some cause))
    (w : World S E) : ∃ w', a w = (.error cause, w') := by
  have hw := ha w
  rcases h : a w with ⟨cause' | v, w'⟩
  · rw [h] at hw
    cases hw
    exact ⟨w', rfl⟩
  · rw [h] at hw
    cases hw

/-- After an action that returns, the rest decides. -/
theorem Ends.bind {a : Action S E α} {f : α → Action S E β} {fault? : Option Fault}
    (ha : a.Ends none) (hf : ∀ v, (f v).Ends fault?) : (a >>= f).Ends fault? := by
  intro w
  obtain ⟨v, w', h⟩ := ha.exists_eq_ok w
  rw [bind_of_ok h]
  exact hf v w'

/-- After one that is refused, nothing does. -/
theorem Ends.bind_of_refused {a : Action S E α} {cause : Fault} (ha : a.Ends (some cause))
    (f : α → Action S E β) : (a >>= f).Ends (some cause) := by
  intro w
  obtain ⟨w', h⟩ := ha.exists_eq_error w
  rw [bind_of_error h]
  rfl

/-- Actions that all return do so one after the other. -/
theorem ends_mapM {γ : Type} {f : γ → Action S E α} (hf : ∀ c, (f c).Ends none) (cs : List γ) :
    (cs.mapM f).Ends none := by
  induction cs with
  | nil =>
    rw [List.mapM_nil]
    exact ends_pure []
  | cons c cs ih =>
    rw [List.mapM_cons]
    exact (hf c).bind fun v => ih.bind fun vs => ends_pure (v :: vs)

/-- Actions that all end in one way end so together, if there is one at all. -/
theorem ends_mapM_of_ne_nil {γ : Type} {f : γ → Action S E α} {fault? : Option Fault}
    (hf : ∀ c, (f c).Ends fault?) {cs : List γ} (hcs : cs ≠ []) : (cs.mapM f).Ends fault? := by
  cases fault? with
  | none => exact ends_mapM hf cs
  | some cause =>
    obtain ⟨c, cs, rfl⟩ := List.exists_cons_of_ne_nil hcs
    rw [List.mapM_cons]
    exact (hf c).bind_of_refused _

end Action

/-! ## (2) Quotients -/

namespace Differences

variable [Scalar S]

/-- The **fault of a division** by a divisor: that of the divisor itself, or that of a divisor of
zero. -/
def divisionFault? : Except Fault S → Option Fault
  | .error cause => some cause
  | .ok d => if Scalar.eq d Scalar.zero then some .divisionByZero else none

/-- A quotient ends as the division does. -/
theorem ends_quotient (x : S) (divisor : Except Fault S) :
    ((do quotient x (← divisor)) : Action S E S).Ends (divisionFault? divisor) := by
  cases divisor with
  | error cause => exact (Action.ends_ofExcept (.error cause)).bind_of_refused _
  | ok d =>
    intro w
    show faultOf? (quotient x d) = divisionFault? (.ok d)
    unfold quotient divisionFault?
    dsimp only
    split <;> rfl

/-! ## (3) Differences of an objective that returns -/

section Objective

variable {f : Objective S E} (hf : ∀ r, (f r).Ends none) {width : Width S}
  (hoffset : faultOf? width.offset = none) (p : Precision) {n : Nat} (hn : 0 < n) (x : Vector S n)
include hf

theorem ends_valueAt : (valueAt f p hn x).Ends none :=
  (Action.ends_add _).bind hf

include hoffset

/-- A central difference ends as the division by twice the width. -/
theorem ends_partialDerivative (i : Fin n) :
    (partialDerivative f width p hn x i).Ends (divisionFault? width.doubled) := by
  refine Action.Ends.bind (hoffset ▸ Action.ends_ofExcept _) fun offset => ?_
  refine (ends_valueAt hf p hn _).bind fun up => ?_
  refine (ends_valueAt hf p hn _).bind fun down => ?_
  exact ends_quotient _ _

/-- A second difference ends as the division by the square of the width. -/
theorem ends_secondDerivative (centre : S) (i : Fin n) :
    (secondDerivative f width p hn x centre i).Ends (divisionFault? width.squared) := by
  refine Action.Ends.bind (hoffset ▸ Action.ends_ofExcept _) fun offset => ?_
  refine (ends_valueAt hf p hn _).bind fun up => ?_
  refine (ends_valueAt hf p hn _).bind fun down => ?_
  exact ends_quotient _ _

/-- A mixed difference ends as the division by four times the square. -/
theorem ends_mixedDerivative (i j : Fin n) :
    (mixedDerivative f width p hn x i j).Ends (divisionFault? width.fourSquared) := by
  refine Action.Ends.bind (hoffset ▸ Action.ends_ofExcept _) fun offset => ?_
  refine (ends_valueAt hf p hn _).bind fun pp => ?_
  refine (ends_valueAt hf p hn _).bind fun pm => ?_
  refine (ends_valueAt hf p hn _).bind fun mp => ?_
  refine (ends_valueAt hf p hn _).bind fun mm => ?_
  exact ends_quotient _ _

/-- **A row of second differences** ends as the division by the square, if this is how the division
by four times the square ends: the first one in the row decides. -/
theorem ends_upperRow (hfour : divisionFault? width.fourSquared = divisionFault? width.squared)
    (centre : S) (i : Fin n) :
    (upperRow f width p hn x centre i).Ends (divisionFault? width.squared) := by
  have hdiagonal := ends_secondDerivative hf hoffset p hn x centre i
  have hmixed := ends_mixedDerivative hf hoffset p hn x i
  rw [hfour] at hmixed
  rcases hfault : divisionFault? width.squared with - | cause
  · rw [hfault] at hdiagonal hmixed
    refine hdiagonal.bind fun diagonal => ?_
    exact (Action.ends_mapM hmixed _).bind fun rest => Action.ends_pure _
  · rw [hfault] at hdiagonal
    exact hdiagonal.bind_of_refused _

end Objective

/-! ## (4) Gradients and Hessians at a column -/

/-- How an action that makes a matrix, and the evaluator that answers with the matrix, **end in a
world**: both return a matrix of a precision and a shape, or both are refused for a cause. -/
def EndsIn (a : Action S E (DenseMatrix S)) (answer : Action S E Value) (w : World S E)
    (p : Precision) (shape : Shape) :
    Option Fault → Prop
  | none => (∃ m w', a w = (.ok m, w') ∧ m.precision = p ∧ m.shape = shape) ∧
      ∃ r w', answer w = (.ok (.matrix r), w') ∧ (w'.store.get r).precision = p ∧
        (w'.store.get r).shape = shape
  | some cause => (∃ w', a w = (.error cause, w')) ∧ ∃ w', answer w = (.error cause, w')

/-- An evaluator that puts a matrix into the store ends as the action does that makes it. -/
theorem endsIn_of_eq_ok {a : Action S E (DenseMatrix S)} {w w' : World S E} {m : DenseMatrix S}
    (h : a w = (.ok m, w')) :
    EndsIn a (do return .matrix (← Action.add (← a))) w m.precision m.shape none := by
  have hanswer : (do return .matrix (← Action.add (← a)) : Action S E Value) w =
      (.ok (.matrix w'.store.size), { w' with store := w'.store.add m }) := Action.bind_of_ok h
  have hget : (w'.store.add m).get w'.store.size = m :=
    Store.get_of_get? (Store.get?_add_size _ _)
  refine ⟨⟨m, w', h, rfl, rfl⟩, _, _, hanswer, ?_, ?_⟩
  · exact congrArg DenseMatrix.precision hget
  · exact congrArg DenseMatrix.shape hget

theorem endsIn_of_eq_error {a : Action S E (DenseMatrix S)} {w w' : World S E} {cause : Fault}
    (h : a w = (.error cause, w')) (p : Precision) (shape : Shape) :
    EndsIn a (do return .matrix (← Action.add (← a))) w p shape (some cause) :=
  ⟨⟨w', h⟩, w', Action.bind_of_error h⟩

/-- A point is the matrix that its reference holds. -/
theorem pointOf_matrix (r : Ref) (w : World S E) :
    pointOf (.matrix r) w = (.ok (w.store.get r), w) := rfl

/-- The entries of the first column, which is the only one of a column vector. -/
def firstColumn (m : DenseMatrix S) : Vector S m.rows := .ofFn fun i => m.grid.get i ⟨0, m.cols_pos⟩

section Matrix

variable (f : Objective S E) (width : Width S) {m : DenseMatrix S} {r : Ref} {w : World S E}
  (hm : w.store.get r = m) (hx : m.isVector = true)
include hm hx

/-- A gradient at a column, after all checks. -/
theorem gradient_matrix :
    gradient f (.ok width) (.matrix r) w = (do
      let values ← (List.finRange m.rows).mapM
        (partialDerivative f width m.precision m.rows_pos (firstColumn m))
      return .ofFn m.precision m.rows_pos Nat.one_pos fun i _ => values.getD i Scalar.zero :
        Action S E (DenseMatrix S)) w := by
  subst hm
  rw [gradient, Action.bind_given, Action.bind_of_ok (pointOf_matrix r w), coordinates, if_pos hx,
    Action.bind_given]
  rfl

/-- A Hessian at a column, after all checks. -/
theorem hessian_matrix :
    hessian f (.ok width) (.matrix r) w = (do
      let centre ← valueAt f m.precision m.rows_pos (firstColumn m)
      let rows ← (List.finRange m.rows).mapM
        (upperRow f width m.precision m.rows_pos (firstColumn m) centre)
      return .ofFn m.precision m.rows_pos m.rows_pos fun i j => mirrored rows i j :
        Action S E (DenseMatrix S)) w := by
  subst hm
  rw [hessian, Action.bind_given, Action.bind_of_ok (pointOf_matrix r w), coordinates, if_pos hx,
    Action.bind_given]
  rfl

end Matrix

section Column

variable {f : Objective S E} (hf : ∀ r, (f r).Ends none) {width : Width S}
  (hoffset : faultOf? width.offset = none)
  {r : Ref} {w : World S E} (hx : (w.store.get r).isVector = true)
include hf hoffset hx

/-- **A gradient at a column** is returned if twice the width divides. -/
theorem endsIn_gradient (hdoubled : divisionFault? width.doubled = none) :
    EndsIn (gradient f (.ok width) (.matrix r)) (gradientEvaluator f width (.matrix r)) w
      (w.store.get r).precision ((w.store.get r).rows, 1) none := by
  have hpartials :=
    ends_partialDerivative hf hoffset (w.store.get r).precision (w.store.get r).rows_pos
    (firstColumn (w.store.get r))
  rw [hdoubled] at hpartials
  obtain ⟨values, w', hvalues⟩ :=
    (Action.ends_mapM hpartials (List.finRange (w.store.get r).rows)).exists_eq_ok w
  have hgradient := gradient_matrix f width rfl hx
  rw [Action.bind_of_ok hvalues] at hgradient
  exact endsIn_of_eq_ok hgradient

/-- **A Hessian at a column** ends as the division by the square of the width, if this is how the
division by four times the square ends. -/
theorem endsIn_hessian (hfour : divisionFault? width.fourSquared = divisionFault? width.squared) :
    EndsIn (hessian f (.ok width) (.matrix r)) (hessianEvaluator f width (.matrix r)) w
      (w.store.get r).precision ((w.store.get r).rows, (w.store.get r).rows)
      (divisionFault? width.squared) := by
  obtain ⟨centre, w₁, hcentre⟩ :=
    (ends_valueAt hf (w.store.get r).precision (w.store.get r).rows_pos
      (firstColumn (w.store.get r))).exists_eq_ok w
  -- there is a first row, and it is refused if one is
  have hfirst : List.finRange (w.store.get r).rows ≠ [] :=
    List.ne_nil_of_mem (List.mem_finRange ⟨0, (w.store.get r).rows_pos⟩)
  have hrows := Action.ends_mapM_of_ne_nil (ends_upperRow hf hoffset (w.store.get r).precision
    (w.store.get r).rows_pos (firstColumn (w.store.get r)) hfour centre) hfirst
  have hhessian := hessian_matrix f width rfl hx
  rw [Action.bind_of_ok hcentre] at hhessian
  rcases hfault : divisionFault? width.squared with - | cause
  · rw [hfault] at hrows
    obtain ⟨rows, w', hvalues⟩ := hrows.exists_eq_ok w₁
    rw [Action.bind_of_ok hvalues] at hhessian
    exact endsIn_of_eq_ok hhessian
  · rw [hfault] at hrows
    obtain ⟨w', hrefused⟩ := hrows.exists_eq_error w₁
    rw [Action.bind_of_error hrefused] at hhessian
    exact endsIn_of_eq_error hhessian _ _

end Column

end Differences

/-! ## (5) Widths in doubles -/

namespace Differences

open Double

/-- Two and four as doubles. -/
theorem exists_ofFloat?_ofNat {n : Nat} (hn : n = 2 ∨ n = 4) :
    ∃ a, Binary.ofFloat? (Scalar.ofNat n) = some a ∧ a.magnitude = n := by
  rcases hn with rfl | rfl
  · exact ⟨⟨false, 2 ^ 52, -51⟩, by decide +kernel, by norm_num [Binary.magnitude]⟩
  · exact ⟨⟨false, 2 ^ 52, -50⟩, by decide +kernel, by norm_num [Binary.magnitude]⟩

/-- The fault of a division by **the square of a number, as it is rounded to a double**: up to half
of the least number the square is lost, and from half a unit below the range on it is too large. -/
def squareFault? (v : ℚ) : Option Fault :=
  if v ^ 2 ≤ 2 ^ (-1075 : Int) then some .divisionByZero
  else if bound ≤ v ^ 2 then some .tooLarge
  else none

variable {x : Float} {b : Binary}

/-- A double divides unless it is a zero. -/
theorem divisionFault?_ok (x : Float) [Decidable (IsZero x)] :
    divisionFault? (.ok x) = if IsZero x then some .divisionByZero else none := by
  unfold divisionFault?
  dsimp only
  simp only [eq_zero_iff]

/-- The square of a finite width, which is refused if it is out of range. -/
def square (x : Float) : Except Fault Float :=
  if (x * x).isFinite then .ok (x * x) else .error .tooLarge

/-- An accepted width in doubles. -/
theorem ofScalar_eq (hb : Binary.ofFloat? x = some b) (hpos : Scalar.lt Scalar.zero x = true) :
    Width.ofScalar x = .ok {
      offset := .ok x
      doubled := .ok (Scalar.mul .double (Scalar.ofNat 2) x)
      squared := square x
      fourSquared := (square x).map (Scalar.mul .double (Scalar.ofNat 4)) } := by
  have hsquared :
      (if Scalar.isFinite x && !Scalar.isFinite (Scalar.mul .double x x) then .error .tooLarge
        else .ok (Scalar.mul .double x x)) = square x := by
    have hfinite : Scalar.isFinite x = true := isFinite_of_ofFloat? hb
    rw [hfinite, Bool.true_and]
    show (if !(x * x).isFinite then .error .tooLarge else .ok (x * x)) = square x
    unfold square
    cases (x * x).isFinite <;> rfl
  unfold Width.ofScalar
  dsimp only
  rw [(not_isZero_of_lt hpos).2, if_neg Bool.false_ne_true, hsquared]

/-- **The square of a width** divides unless it is lost or out of range. -/
theorem divisionFault?_square (hb : Binary.ofFloat? x = some b) :
    divisionFault? (square x) = squareFault? b.magnitude := by
  classical
  have hzero := (isRounded_mul hb hb).eq_zero_iff
  have hrange := isFinite_mul_iff hb hb
  rw [Binary.magnitude_times, ← sq] at hzero
  rw [← sq] at hrange
  unfold square squareFault?
  by_cases hsquare : (x * x).isFinite = true
  · rw [if_pos hsquare, if_neg (not_le.mpr (hrange.mp hsquare)), divisionFault?_ok]
    exact if_congr hzero rfl rfl
  · have hlarge : bound ≤ b.magnitude ^ 2 := not_lt.mp ((not_congr hrange).mp hsquare)
    have hkept : ¬ b.magnitude ^ 2 ≤ 2 ^ (-1075 : Int) := by
      intro htiny
      obtain ⟨c, hc, -⟩ := isZero_iff.mp (hzero.mpr htiny)
      exact hsquare (isFinite_of_ofFloat? hc)
    rw [if_neg hsquare, if_neg hkept, if_pos hlarge]
    rfl

/-- **Four times the square** divides where the square does, and it is finite below the bound. -/
theorem divisionFault?_four_mul_square (hb : Binary.ofFloat? x = some b) :
    divisionFault? ((square x).map (Scalar.mul .double (Scalar.ofNat 4))) =
      divisionFault? (square x) ∧
      ∀ d, (square x).map (Scalar.mul .double (Scalar.ofNat 4)) = .ok d →
        (d.isFinite = true ↔ 4 * b.magnitude ^ 2 < bound) := by
  classical
  obtain ⟨four, hfour, hvalue⟩ := exists_ofFloat?_ofNat (.inr rfl)
  unfold square
  by_cases hsquare : (x * x).isFinite = true
  · obtain ⟨c, hc⟩ := exists_ofFloat?_of_isFinite hsquare
    have hone : 1 ≤ four.magnitude := by
      rw [hvalue]
      norm_num
    rw [if_pos hsquare]
    constructor
    · refine (divisionFault?_ok _).trans (Eq.trans ?_ (divisionFault?_ok _).symm)
      exact if_congr (isZero_mul_iff hfour hone hc) rfl rfl
    · rintro d ⟨⟩
      rw [sq, ← Binary.magnitude_times, ← four_mul_lt_bound_iff (isRounded_mul hb hb) hc]
      refine (isFinite_mul_iff hfour hc).trans ?_
      rw [hvalue]
      rfl
  · rw [if_neg hsquare]
    exact ⟨rfl, nofun⟩

/-- **Twice a width** always divides, and it is finite below the bound. -/
theorem divisionFault?_two_mul (hb : Binary.ofFloat? x = some b) (hne : ¬ IsZero x) :
    divisionFault? (.ok (Scalar.mul .double (Scalar.ofNat 2) x)) = none ∧
      ((Scalar.mul .double (Scalar.ofNat 2) x).isFinite = true ↔ 2 * b.magnitude < bound) := by
  classical
  obtain ⟨two, htwo, hvalue⟩ := exists_ofFloat?_ofNat (.inl rfl)
  have hone : 1 ≤ two.magnitude := by
    rw [hvalue]
    norm_num
  constructor
  · exact (divisionFault?_ok _).trans (if_neg fun h => hne ((isZero_mul_iff htwo hone hb).mp h))
  · refine (isFinite_mul_iff htwo hb).trans ?_
    rw [hvalue]
    rfl

variable {E : Type}

/-- **Where differences are defined**, for a width that is accepted: a finite number above zero.
Twice the width is never zero, so a gradient at a column is always returned, if the objective always
returns. The square of the width may be lost or out of range, and then the Hessian is refused, at
every column and for every objective: for a division by zero if the exact square is at most
`2 ^ (-1075)`, for a result too large if it is not below the bound. Otherwise the Hessian is
returned too. -/
theorem ends_of_width (hb : Binary.ofFloat? x = some b) (hpos : Scalar.lt Scalar.zero x = true)
    {f : Objective Float E} (hf : ∀ r, (f r).Ends none) :
    ∃ width, Width.ofScalar x = .ok width ∧
      (divisionFault? width.doubled = none ∧
        ∀ d, width.doubled = .ok d → (d.isFinite = true ↔ 2 * b.magnitude < bound)) ∧
      divisionFault? width.squared = squareFault? b.magnitude ∧
      (divisionFault? width.fourSquared = squareFault? b.magnitude ∧
        ∀ d, width.fourSquared = .ok d → (d.isFinite = true ↔ 4 * b.magnitude ^ 2 < bound)) ∧
      ∀ (r : Ref) (w : World Float E), (w.store.get r).isVector = true →
        EndsIn (gradient f (Width.ofScalar x) (.matrix r)) (gradientEvaluator f width (.matrix r)) w
          (w.store.get r).precision ((w.store.get r).rows, 1) none ∧
        EndsIn (hessian f (Width.ofScalar x) (.matrix r)) (hessianEvaluator f width (.matrix r)) w
          (w.store.get r).precision ((w.store.get r).rows, (w.store.get r).rows)
          (squareFault? b.magnitude) := by
  obtain ⟨hdoubled, htwice⟩ := divisionFault?_two_mul hb (not_isZero_of_lt hpos).1
  have hsquared := divisionFault?_square hb
  obtain ⟨hfourSquared, hfourfold⟩ := divisionFault?_four_mul_square hb
  have hwidth := ofScalar_eq hb hpos
  refine ⟨_, hwidth, ⟨hdoubled, ?_⟩, hsquared, ⟨hfourSquared.trans hsquared, hfourfold⟩,
    fun r w hx => ?_⟩
  · rintro d ⟨⟩
    exact htwice
  · rw [hwidth, ← hsquared]
    exact ⟨endsIn_gradient hf rfl hx hdoubled, endsIn_hessian hf rfl hx hfourSquared⟩

/-- An objective with the value one everywhere. -/
def flat : Objective Float Unit := fun _ => pure 1.0

/-- The world that holds nothing but the origin of the line. -/
def originWorld : World Float Unit :=
  ⟨⟨#[.ofFn .double Nat.one_pos Nat.one_pos fun (_ _ : Fin 1) => 0.0]⟩, .initial, .initial, ()⟩

/-- The square of the width `1e-200` is lost, so that there is a gradient at the origin and no
Hessian. -/
theorem ends_of_width_lost :
    (∃ m w', gradient flat (Width.ofScalar 1e-200) (.matrix 0) originWorld = (.ok m, w') ∧
      m.shape = (1, 1)) ∧
      ∃ w', hessian flat (Width.ofScalar 1e-200) (.matrix 0) originWorld =
      (.error .divisionByZero, w') := by
  obtain ⟨width, -, -, -, -, hends⟩ :=
    ends_of_width (x := 1e-200) (b := ⟨false, 6894565328877484, -717⟩)
    (by decide +kernel) (by decide +kernel) (f := flat) fun _ => Action.ends_pure _
  have hlost : squareFault? (⟨false, 6894565328877484, -717⟩ : Binary).magnitude =
      some .divisionByZero :=
    if_pos (by decide +kernel)
  obtain ⟨⟨⟨m, w', hgradient, -, hshape⟩, -⟩, hrefused⟩ := hends 0 originWorld (by decide +kernel)
  rw [hlost] at hrefused
  exact ⟨⟨m, w', hgradient, hshape⟩, hrefused.1⟩

/-- **Accepted widths without a Hessian**: the square of the one is lost, that of the other is out
of range. Both widths are finite numbers above zero, the point is a finite column, and the objective
always returns a finite number. -/
theorem hessian_refused_of_width :
    (∀ r w, flat r w = (.ok 1.0, w)) ∧ (1.0 : Float).isFinite = true ∧
      (originWorld.store.get 0).isVector = true ∧ (originWorld.store.get 0).isFinite = true ∧
      ((1e-200 : Float).isFinite = true ∧ Scalar.lt Scalar.zero (1e-200 : Float) = true ∧
        (faultOf? (hessian flat (Width.ofScalar 1e-200) (.matrix 0) originWorld).1).map Fault.kind =
          some .zeroDivision) ∧
      (1e200 : Float).isFinite = true ∧ Scalar.lt Scalar.zero (1e200 : Float) = true ∧
        (faultOf? (hessian flat (Width.ofScalar 1e200) (.matrix 0) originWorld).1).map Fault.kind =
          some .overflow := by
  refine ⟨fun _ _ => rfl, ?_⟩
  decide +kernel

end Differences

end NewtonRaphson
