import NewtonRaphson.Proofs.Differences

/-! # The evaluations that differences make

How often an objective is evaluated, and where, is not part of a difference. So the objective is
**logged**: a list beside the caller's own state keeps the references that it is given and what they
hold at that time. Every evaluation is made at a matrix of its own, which holds the point it should,
whatever the objective did to earlier ones.

* **`Objective.logged`** — the objective that also notes what it is evaluated at.
* **`Action.Evaluates`** — an action does the same with a logged objective, and the log grows by
  evaluations at given points; **`Action.Evaluates.bind`** — one such action after the other.
* **`Differences.Move`** — a step of the width along a coordinate; **`Differences.gradientMoves`**,
  **`Differences.hessianMoves`** — the moves to the points that a gradient and a Hessian are made
  of.
* **`Differences.evaluates_gradient`**, **`Differences.evaluates_hessian`** — the objective is
  evaluated there, in this order; **`Differences.evaluates_hessian_of_refused`** — and no further if
  the first quotient is refused. -/

namespace NewtonRaphson

variable {S E α β : Type}

/-! ## (1) Logged objectives -/

/-- An **evaluation** of an objective: the reference it is given, and what that holds at that
time. -/
structure Evaluation (S : Type) where
  /-- The reference. -/
  ref : Ref
  /-- What it holds. -/
  point : DenseMatrix S

/-- The world with a log of evaluations beside the caller's state. -/
def World.logging (w : World S E) (log : List (Evaluation S)) : World S (E × List (Evaluation S)) :=
  ⟨w.store, w.settings, w.journal, w.caller, log⟩

/-- The world without its log. -/
def World.unlogged (w : World S (E × List (Evaluation S))) : World S E :=
  ⟨w.store, w.settings, w.journal, w.caller.1⟩

/-- The objective that also notes what it is evaluated at. -/
def Objective.logged [Scalar S] (f : Objective S E) : Objective S (E × List (Evaluation S)) :=
  fun r w => ((f r w.unlogged).1, (f r w.unlogged).2.logging (w.caller.2 ++ [⟨r, w.store.get r⟩]))

/-- References that **ascend** from a number to another one: each is later than the one before. -/
structure Ascend (low : Ref) (refs : List Ref) (high : Ref) : Prop where
  /-- The numbers are in order. -/
  le : low ≤ high
  /-- So are the references. -/
  ordered : refs.Pairwise (· < ·)
  /-- The references lie between the numbers. -/
  between : ∀ r ∈ refs, low ≤ r ∧ r < high

/-- References that ascend one after the other ascend as a whole. -/
theorem Ascend.append {low mid high : Ref} {first second : List Ref} (h : Ascend low first mid)
    (h' : Ascend mid second high) : Ascend low (first ++ second) high where
  le := h.le.trans h'.le
  ordered := List.pairwise_append.mpr ⟨h.ordered, h'.ordered, fun r hr q hq =>
    (h.between r hr).2.trans_le (h'.between q hq).1⟩
  between := by
    intro r hr
    rcases List.mem_append.mp hr with hr | hr
    · exact ⟨(h.between r hr).1, (h.between r hr).2.trans_le h'.le⟩
    · exact ⟨h.le.trans (h'.between r hr).1, (h'.between r hr).2⟩

namespace Action

/-! ## (2) Actions that evaluate -/

/-- From a world an action **evaluates** an objective at given points: with the logged objective it
does what it does with the plain one, and the log grows by evaluations at these points, each at a
reference that was never used before. It ends with a fault or without one. -/
def EvaluatesFrom (w : World S E) (a : Action S E α) (a' : Action S (E × List (Evaluation S)) α)
    (points : List (DenseMatrix S)) (fault? : Option Fault) : Prop :=
  faultOf? (a w).1 = fault? ∧ ∀ log, ∃ evaluations : List (Evaluation S),
    a' (w.logging log) = ((a w).1, (a w).2.logging (log ++ evaluations)) ∧
    evaluations.map Evaluation.point = points ∧
    Ascend w.store.size (evaluations.map Evaluation.ref) (a w).2.store.size

/-- It does so from every world. -/
def Evaluates (a : Action S E α) (a' : Action S (E × List (Evaluation S)) α)
    (points : List (DenseMatrix S)) (fault? : Option Fault) : Prop :=
  ∀ w, EvaluatesFrom w a a' points fault?

variable {a : Action S E α} {a' : Action S (E × List (Evaluation S)) α} {f : α → Action S E β}
  {f' : α → Action S (E × List (Evaluation S)) β} {points points' : List (DenseMatrix S)}
  {fault? : Option Fault}

/-- What does not look at the world evaluates nothing. -/
theorem evaluates_of_silent (out : Except Fault α) (ha : ∀ w, a w = (out, w))
    (ha' : ∀ w, a' w = (out, w)) : Evaluates a a' [] (faultOf? out) := by
  intro w
  refine ⟨by rw [ha], fun log => ⟨[], ?_, rfl, ?_⟩⟩
  · rw [ha, ha', List.append_nil]
  · rw [ha]
    exact ⟨le_rfl, List.Pairwise.nil, nofun⟩

/-- A value that is given is handed on. -/
theorem Evaluates.given {v : α} {x : Except Fault α} (hx : x = .ok v)
    (hf : Evaluates (f v) (f' v) points fault?) :
    Evaluates (liftM x >>= f) (liftM x >>= f') points fault? := by
  subst hx
  exact hf

/-- **One action after the other** evaluates at the points of both, if the first returns. -/
theorem EvaluatesFrom.bind {w : World S E} (ha : EvaluatesFrom w a a' points none)
    (hf : ∀ v, Evaluates (f v) (f' v) points' fault?) :
    EvaluatesFrom w (a >>= f) (a' >>= f') (points ++ points') fault? := by
  obtain ⟨hreturns, hrun⟩ := ha
  rcases h : a w with ⟨cause | v, w₁⟩
  · rw [h] at hreturns
    cases hreturns
  · rw [h] at hrun
    -- the second action starts where the first one ended, with the log as it is there
    obtain ⟨hfault, hrest⟩ := hf v w₁
    rw [EvaluatesFrom, bind_of_ok h]
    refine ⟨hfault, fun log => ?_⟩
    obtain ⟨first, hlog, hpoints, hascend⟩ := hrun log
    obtain ⟨second, hlog', hpoints', hascend'⟩ := hrest (log ++ first)
    refine ⟨first ++ second, ?_, ?_, ?_⟩
    · rw [bind_of_ok hlog, hlog', List.append_assoc]
    · rw [List.map_append, hpoints, hpoints']
    · rw [List.map_append]
      exact hascend.append hascend'

theorem Evaluates.bind (ha : Evaluates a a' points none)
    (hf : ∀ v, Evaluates (f v) (f' v) points' fault?) :
    Evaluates (a >>= f) (a' >>= f') (points ++ points') fault? :=
  fun w => (ha w).bind hf

/-- After an action that is refused nothing is evaluated any more. -/
theorem Evaluates.bind_of_refused {cause : Fault} (ha : Evaluates a a' points (some cause))
    (f : α → Action S E β) (f' : α → Action S (E × List (Evaluation S)) β) :
    Evaluates (a >>= f) (a' >>= f') points (some cause) := by
  intro w
  obtain ⟨hrefused, hrun⟩ := ha w
  rcases h : a w with ⟨cause' | v, w₁⟩
  · rw [h] at hrefused hrun
    rw [EvaluatesFrom, bind_of_error h]
    refine ⟨hrefused, fun log => ?_⟩
    obtain ⟨evaluations, hlog, hpoints, hascend⟩ := hrun log
    exact ⟨evaluations, bind_of_error hlog, hpoints, hascend⟩
  · rw [h] at hrefused
    cases hrefused

/-- An action that comes to the same in a world evaluates the same from there. -/
theorem EvaluatesFrom.of_eq {w : World S E} {b : Action S E α}
    {b' : Action S (E × List (Evaluation S)) α} (ha : a w = b w)
    (ha' : ∀ log, a' (w.logging log) = b' (w.logging log))
    (h : EvaluatesFrom w b b' points fault?) : EvaluatesFrom w a a' points fault? := by
  unfold EvaluatesFrom at h ⊢
  simp only [ha, ha']
  exact h

/-- What is refused in a world evaluates nothing there. -/
theorem EvaluatesFrom.of_refused {w : World S E} {cause : Fault} (ha : a w = (.error cause, w))
    (ha' : ∀ log, a' (w.logging log) = (.error cause, w.logging log)) :
    EvaluatesFrom w a a' [] (some cause) := by
  have hfail : Evaluates (Action.fail cause : Action S E α) (Action.fail cause) [] (some cause) :=
    evaluates_of_silent (.error cause) (fun _ => rfl) fun _ => rfl
  exact .of_eq ha ha' (hfail w)

/-- Actions in a row evaluate one after the other. -/
theorem evaluates_mapM {γ : Type} {f : γ → Action S E α}
    {f' : γ → Action S (E × List (Evaluation S)) α} {points : γ → List (DenseMatrix S)}
    (hf : ∀ c, Evaluates (f c) (f' c) (points c) none) (cs : List γ) :
    Evaluates (cs.mapM f) (cs.mapM f') (cs.flatMap points) none := by
  induction cs with
  | nil =>
    rw [List.mapM_nil, List.mapM_nil]
    exact evaluates_of_silent (.ok []) (fun _ => rfl) fun _ => rfl
  | cons c cs ih =>
    rw [List.mapM_cons, List.mapM_cons, List.flatMap_cons]
    refine (hf c).bind fun v => ?_
    rw [← List.append_nil (cs.flatMap points)]
    exact ih.bind fun vs => evaluates_of_silent (.ok (v :: vs)) (fun _ => rfl) fun _ => rfl

end Action

/-! ## (3) Moves -/

namespace Differences

/-- A **move** along a coordinate, by the width. -/
inductive Move (n : Nat) where
  /-- Upwards. -/
  | up (i : Fin n)
  /-- Downwards. -/
  | down (i : Fin n)
  deriving DecidableEq

section Moves

variable {n : Nat}

/-- The moves of a central difference. -/
def straight (i : Fin n) : List (List (Move n)) := [[.up i], [.down i]]

/-- The moves of a mixed difference. -/
def crossed (i j : Fin n) : List (List (Move n)) :=
  [[.up i, .up j], [.up i, .down j], [.down i, .up j], [.down i, .down j]]

/-- The moves of a row of second differences: along the coordinate, and crosswise with each later
one. -/
def rowMoves (i : Fin n) : List (List (Move n)) :=
  straight i ++ ((List.finRange n).filter (i < ·)).flatMap (crossed i)

/-- **The moves of a gradient**: up and down along each coordinate. -/
def gradientMoves (n : Nat) : List (List (Move n)) := (List.finRange n).flatMap straight

/-- **The moves of a Hessian**: none, and those of each row. -/
def hessianMoves (n : Nat) : List (List (Move n)) := [] :: (List.finRange n).flatMap rowMoves

/-- There is a first coordinate. -/
theorem exists_finRange_eq_cons (hn : 0 < n) : ∃ later, List.finRange n = ⟨0, hn⟩ :: later := by
  obtain ⟨k, rfl⟩ := Nat.exists_eq_succ_of_ne_zero hn.ne'
  exact ⟨_, List.finRange_succ⟩

/-- The first moves of a Hessian are none and those along the first coordinate. -/
theorem take_hessianMoves (hn : 0 < n) : (hessianMoves n).take 3 = [] :: straight ⟨0, hn⟩ := by
  obtain ⟨later, hfirst⟩ := exists_finRange_eq_cons hn
  rw [hessianMoves, hfirst]
  rfl

variable [Scalar S]

/-- A point after a move. -/
def Move.apply (width : S) (x : Vector S n) : Move n → Vector S n
  | up i => shift Scalar.add width i x
  | down i => shift Scalar.sub width i x

/-- **The point after several moves**, as a column of a precision. -/
def pointAt (p : Precision) (hn : 0 < n) (width : S) (x : Vector S n) (moves : List (Move n)) :
    DenseMatrix S :=
  .ofFn p hn Nat.one_pos fun i _ => (moves.foldl (Move.apply width) x).get i

end Moves

/-! ## (4) The evaluations of differences -/

open NewtonRaphson.Action (Evaluates EvaluatesFrom evaluates_of_silent evaluates_mapM)

variable [Scalar S]

/-- A quotient evaluates nothing, and ends as the division does. -/
theorem evaluates_quotient (y : S) (divisor : Except Fault S) :
    Evaluates (do quotient y (← divisor) : Action S E S) (do quotient y (← divisor)) []
      (divisionFault? divisor) := by
  have hsilent {E : Type} (w : World S E) :
      (do quotient y (← divisor) : Action S E S) w = (divisor.bind (quotient y), w) := by
    cases divisor <;> rfl
  have hfault := ends_quotient y divisor (⟨.empty, .initial, .initial, ()⟩ : World S Unit)
  rw [hsilent] at hfault
  rw [← hfault]
  exact evaluates_of_silent _ hsilent hsilent

section Objective

variable {f : Objective S E} (hf : ∀ r, (f r).Ends none)
  (hgrows : ∀ r w, w.store.size ≤ (f r w).2.store.size) (p : Precision) {n : Nat} (hn : 0 < n)
include hf hgrows

/-- **The value at a point** is one evaluation there, at a new reference. -/
theorem evaluates_valueAt (x : Vector S n) :
    Evaluates (valueAt f p hn x) (valueAt f.logged p hn x)
      [.ofFn p hn Nat.one_pos fun i _ => x.get i] none := by
  intro w
  let m : DenseMatrix S := .ofFn p hn Nat.one_pos fun i _ => x.get i
  refine ⟨ends_valueAt hf p hn x w, fun log => ⟨[⟨w.store.size, m⟩], ?_, rfl, ?_⟩⟩
  · have hget : (w.store.add m).get w.store.size = m := Store.get_of_get? (Store.get?_add_size _ _)
    have hrun : valueAt f.logged p hn x (w.logging log) = ((valueAt f p hn x w).1,
        (valueAt f p hn x w).2.logging
        (log ++ [⟨w.store.size, (w.store.add m).get w.store.size⟩])) := rfl
    rw [hrun, hget]
  · -- the objective finds its point behind all that was there
    have hlater : w.store.size < (valueAt f p hn x w).2.store.size := by
      have hsize := hgrows w.store.size { w with store := w.store.add m }
      rw [Store.size_add] at hsize
      exact hsize
    refine ⟨hlater.le, List.pairwise_singleton _ _, fun r hr => ?_⟩
    obtain rfl := List.mem_singleton.mp hr
    exact ⟨le_rfl, hlater⟩

variable {width : Width S} {offset : S} (hoffset : width.offset = .ok offset) (x : Vector S n)
include hoffset

/-- **A central difference** is made of the values above and below. -/
theorem evaluates_partialDerivative (i : Fin n) :
    Evaluates (partialDerivative f width p hn x i) (partialDerivative f.logged width p hn x i)
      ((straight i).map (pointAt p hn offset x)) (divisionFault? width.doubled) := by
  refine .given hoffset ?_
  refine (evaluates_valueAt hf hgrows p hn _).bind fun up => ?_
  refine (evaluates_valueAt hf hgrows p hn _).bind fun down => ?_
  exact evaluates_quotient _ _

/-- **So is a second difference.** -/
theorem evaluates_secondDerivative (centre : S) (i : Fin n) :
    Evaluates (secondDerivative f width p hn x centre i)
      (secondDerivative f.logged width p hn x centre i)
      ((straight i).map (pointAt p hn offset x)) (divisionFault? width.squared) := by
  refine .given hoffset ?_
  refine (evaluates_valueAt hf hgrows p hn _).bind fun up => ?_
  refine (evaluates_valueAt hf hgrows p hn _).bind fun down => ?_
  exact evaluates_quotient _ _

/-- **A mixed difference** is made of the four values around. -/
theorem evaluates_mixedDerivative (i j : Fin n) :
    Evaluates (mixedDerivative f width p hn x i j) (mixedDerivative f.logged width p hn x i j)
      ((crossed i j).map (pointAt p hn offset x)) (divisionFault? width.fourSquared) := by
  refine .given hoffset ?_
  refine (evaluates_valueAt hf hgrows p hn _).bind fun pp => ?_
  refine (evaluates_valueAt hf hgrows p hn _).bind fun pm => ?_
  refine (evaluates_valueAt hf hgrows p hn _).bind fun mp => ?_
  refine (evaluates_valueAt hf hgrows p hn _).bind fun mm => ?_
  exact evaluates_quotient _ _

/-- **A row of second differences** is made of the values along its coordinate and crosswise with
the later ones, if all quotients are defined. -/
theorem evaluates_upperRow (hsquared : divisionFault? width.squared = none)
    (hfour : divisionFault? width.fourSquared = none) (centre : S) (i : Fin n) :
    Evaluates (upperRow f width p hn x centre i) (upperRow f.logged width p hn x centre i)
      ((rowMoves i).map (pointAt p hn offset x)) none := by
  have hdiagonal := evaluates_secondDerivative hf hgrows p hn hoffset x centre i
  have hmixed := evaluates_mixedDerivative hf hgrows p hn hoffset x i
  rw [hsquared] at hdiagonal
  rw [hfour] at hmixed
  rw [rowMoves, List.map_append, List.map_flatMap]
  refine hdiagonal.bind fun diagonal => ?_
  rw [← List.append_nil (List.flatMap _ _)]
  refine (evaluates_mapM hmixed _).bind fun rest => ?_
  exact evaluates_of_silent (.ok (diagonal :: rest)) (fun _ => rfl) fun _ => rfl

/-- If the first quotient is refused, only the values along the coordinate are asked for. -/
theorem evaluates_upperRow_of_refused {cause : Fault}
    (hsquared : divisionFault? width.squared = some cause) (centre : S) (i : Fin n) :
    Evaluates (upperRow f width p hn x centre i) (upperRow f.logged width p hn x centre i)
      ((straight i).map (pointAt p hn offset x)) (some cause) := by
  have hdiagonal := evaluates_secondDerivative hf hgrows p hn hoffset x centre i
  rw [hsquared] at hdiagonal
  exact hdiagonal.bind_of_refused _ _

end Objective

/-! ## (5) Gradients and Hessians -/

section Column

variable {f : Objective S E} (hf : ∀ r, (f r).Ends none) (hgrows : ∀ r w,
  w.store.size ≤ (f r w).2.store.size)
  {width : Width S} {offset : S} (hoffset : width.offset = .ok offset) {m : DenseMatrix S} {r : Ref}
  {w : World S E} (hm : w.store.get r = m) (hx : m.isVector = true)
include hf hgrows hoffset hm hx

/-- **The evaluations of a gradient**, if twice the width divides. -/
theorem evaluates_gradient (hdoubled : divisionFault? width.doubled = none) :
    EvaluatesFrom w (gradient f (.ok width) (.matrix r)) (gradient f.logged (.ok width) (.matrix r))
      ((gradientMoves m.rows).map (pointAt m.precision m.rows_pos offset (firstColumn m)))
        none := by
  have hpartials :=
    evaluates_partialDerivative hf hgrows m.precision m.rows_pos hoffset (firstColumn m)
  rw [hdoubled] at hpartials
  refine .of_eq (gradient_matrix f width hm hx) (fun log => gradient_matrix f.logged width hm hx) ?_
  rw [gradientMoves, List.map_flatMap, ← List.append_nil (List.flatMap _ _)]
  refine (evaluates_mapM hpartials _ w).bind fun values => ?_
  exact evaluates_of_silent (.ok _) (fun _ => rfl) fun _ => rfl

/-- **The evaluations of a Hessian**, if the square of the width and four times the square
divide. -/
theorem evaluates_hessian (hsquared : divisionFault? width.squared = none)
    (hfour : divisionFault? width.fourSquared = none) :
    EvaluatesFrom w (hessian f (.ok width) (.matrix r)) (hessian f.logged (.ok width) (.matrix r))
      ((hessianMoves m.rows).map (pointAt m.precision m.rows_pos offset (firstColumn m))) none := by
  have hrows :=
    evaluates_upperRow hf hgrows m.precision m.rows_pos hoffset (firstColumn m) hsquared hfour
  refine .of_eq (hessian_matrix f width hm hx) (fun log => hessian_matrix f.logged width hm hx) ?_
  rw [hessianMoves, List.map_cons, List.map_flatMap, ← List.append_nil (List.flatMap _ _)]
  refine (evaluates_valueAt hf hgrows m.precision m.rows_pos _ w).bind fun centre => ?_
  refine (evaluates_mapM (hrows centre) _).bind fun rows => ?_
  exact evaluates_of_silent (.ok _) (fun _ => rfl) fun _ => rfl

/-- **If the square of the width does not divide**, a Hessian is refused after the value at the
point and the two values along the first coordinate. -/
theorem evaluates_hessian_of_refused {cause : Fault}
    (hsquared : divisionFault? width.squared = some cause) :
    EvaluatesFrom w (hessian f (.ok width) (.matrix r)) (hessian f.logged (.ok width) (.matrix r))
      (((hessianMoves m.rows).take 3).map (pointAt m.precision m.rows_pos offset (firstColumn m)))
        (some cause) := by
  have hrow :=
    evaluates_upperRow_of_refused hf hgrows m.precision m.rows_pos hoffset (firstColumn m) hsquared
  refine .of_eq (hessian_matrix f width hm hx) (fun log => hessian_matrix f.logged width hm hx) ?_
  obtain ⟨later, hfirst⟩ := exists_finRange_eq_cons m.rows_pos
  rw [take_hessianMoves m.rows_pos, List.map_cons]
  refine (evaluates_valueAt hf hgrows m.precision m.rows_pos _ w).bind fun centre => ?_
  -- the first row is refused at its first entry, so no other row is begun
  rw [hfirst, List.mapM_cons, List.mapM_cons]
  exact ((hrow centre _).bind_of_refused _ _).bind_of_refused _ _

end Column

end Differences

end NewtonRaphson
