import NewtonRaphson.Proofs.Differences
import NewtonRaphson.Proofs.Differences.Polynomial
import NewtonRaphson.Proofs.ExactScalar

/-! # Differences are exact on polynomials of a low degree

Over exact scalars the only error of a difference is the one of the method, and on polynomials of a
low degree the method has none.

* **`Action.Returns v a`** — the action returns `v` in all worlds.
* **`Objective.Evaluates f P`** — the objective gives the value of the polynomial `P` at every
  column; `Objective.evaluates_ofPolynomial` says that each polynomial has one.
* **`Differences.returns_partialDerivative`**, **`Differences.returns_upperRow`** — what the
  differences of such an objective return.
* **`Differences.mirrored_eq`** — the rows from the diagonal on make up the whole symmetric matrix.
* **`Differences.exact_of_totalDegree_le`** — gradients of polynomials of degree two at most, and
  Hessians of polynomials of degree three at most, are the ones of the polynomial. -/

namespace NewtonRaphson

open MvPolynomial (eval pderiv pderiv_X totalDegree_X totalDegree_mul X)

/-! ## (1) Actions that return -/

namespace Action

variable {S E α β : Type}

/-- An action **returns** a value in all worlds, whatever else it does. -/
def Returns (v : α) (a : Action S E α) : Prop := ∀ w, (a w).1 = .ok v

theorem returns_pure (v : α) : (pure v : Action S E α).Returns v := fun _ => rfl

theorem returns_given (v : α) : (liftM (Except.ok v : Except Fault α) : Action S E α).Returns v :=
  fun _ => rfl

/-- After an action that returns a value, the rest returns what it returns for that value. -/
theorem Returns.bind {a : Action S E α} {f : α → Action S E β} {v : α} {u : β} (ha : a.Returns v)
    (hf : (f v).Returns u) : (a >>= f).Returns u := by
  intro w
  rw [bind_of_ok (show a w = (.ok v, (a w).2) from Prod.ext (ha w) rfl)]
  exact hf _

/-- Actions that all return their values return the list of them. -/
theorem returns_mapM {γ : Type} {f : γ → Action S E α} {g : γ → α} {cs : List γ}
    (hf : ∀ c ∈ cs, (f c).Returns (g c)) : (cs.mapM f).Returns (cs.map g) := by
  induction cs with
  | nil =>
    rw [List.mapM_nil]
    exact returns_pure []
  | cons c cs ih =>
    obtain ⟨hc, hcs⟩ := List.forall_mem_cons.mp hf
    rw [List.mapM_cons]
    exact hc.bind ((ih hcs).bind (returns_pure _))

end Action

/-! ## (2) Objectives that evaluate a polynomial -/

/-- The column with given entries. -/
def DenseMatrix.columnOf {S : Type} (p : Precision) {n : ℕ} (hn : 0 < n) (x : Fin n → S) :
    DenseMatrix S :=
  ⟨p, n, 1, hn, Nat.one_pos, .ofFn fun i _ => x i⟩

/-- The square matrix with given entries. -/
def DenseMatrix.squareOf {S : Type} (p : Precision) {n : ℕ} (hn : 0 < n) (x : Fin n → Fin n → S) :
    DenseMatrix S :=
  ⟨p, n, n, hn, hn, .ofFn x⟩

/-- An objective **evaluates** a polynomial: at every column it returns the value of the polynomial
there, whatever else it does. -/
def Objective.Evaluates {K E : Type} [CommSemiring K] (f : Objective K E) {n : ℕ}
    (P : MvPolynomial (Fin n) K) : Prop :=
  ∀ (q : Ref) (w : World K E) (p : Precision) (hn : 0 < n) (x : Fin n → K),
    w.store.get? q = some (.columnOf p hn x) → (f q w).1 = .ok (eval x P)

section Polynomial

variable {K E : Type} [CommRing K] [Scalar K]

/-- The objective that reads the point and evaluates a polynomial. -/
noncomputable def Objective.ofPolynomial {n : ℕ} (P : MvPolynomial (Fin n) K) :
    Objective K E := fun q => do
  let m ← Action.read q
  return eval (fun i : Fin n =>
    if h : i.val < m.rows then m.grid.get ⟨i, h⟩ ⟨0, m.cols_pos⟩ else 0) P

/-- **Every polynomial is evaluated by an objective.** -/
theorem Objective.evaluates_ofPolynomial {n : ℕ} (P : MvPolynomial (Fin n) K) :
    (Objective.ofPolynomial P : Objective K E).Evaluates P := by
  intro q w p hn x hx
  rw [ofPolynomial, Action.bind_of_ok (show Action.read q w = (.ok (w.store.get q), w) from rfl),
    Store.get_of_get? hx]
  show Except.ok (eval _ P) = _
  have hentries : (fun i : Fin n => if h : i.val < (DenseMatrix.columnOf p hn x).rows
      then (DenseMatrix.columnOf p hn x).grid.get ⟨i, h⟩ ⟨0, (DenseMatrix.columnOf p hn x).cols_pos⟩
      else 0) = x := by
    funext i
    simp [DenseMatrix.columnOf]
  rw [hentries]

end Polynomial

namespace Differences

/-! ## (3) Columns, and symmetric matrices by their upper rows -/

section Rows

variable {S : Type} {n : ℕ}

/-- The coordinates of a column. -/
theorem coordinates_columnOf (p : Precision) (hn : 0 < n) (x : Fin n → S) :
    coordinates (.columnOf p hn x) = .ok (.ofFn x) := by
  refine (if_pos rfl).trans (congrArg Except.ok (congrArg Vector.ofFn (funext fun i => ?_)))
  exact Grid.get_ofFn _ _ _

/-- The part of a row from the diagonal on. -/
def upperPart (H : Fin n → Fin n → S) (i : Fin n) : List S :=
  H i i :: ((List.finRange n).filter (i < ·)).map (H i)

/-- The indices behind one of them. -/
theorem filter_lt_finRange (i : Fin n) :
    (List.finRange n).filter (i < ·) = (List.finRange n).drop (i + 1) := by
  have hhead : ((List.finRange n).take (i + 1)).filter (i < ·) = [] := by
    refine List.filter_eq_nil_iff.mpr fun j hj => ?_
    obtain ⟨k, hk, rfl⟩ := List.mem_take_iff_getElem.mp hj
    simp only [List.getElem_finRange, decide_eq_true_eq, Fin.lt_def, Fin.val_cast]
    omega
  have htail : ((List.finRange n).drop (i + 1)).filter (i < ·) =
      (List.finRange n).drop (i + 1) := by
    refine List.filter_eq_self.mpr fun j hj => ?_
    obtain ⟨k, hk, rfl⟩ := List.mem_drop_iff_getElem.mp hj
    simp only [List.getElem_finRange, decide_eq_true_eq, Fin.lt_def, Fin.val_cast]
    omega
  conv_lhs => rw [← List.take_append_drop (i + 1) (List.finRange n)]
  rw [List.filter_append, hhead, htail, List.nil_append]

/-- An entry of a row from the diagonal on. -/
theorem getD_upperPart (H : Fin n → Fin n → S) {i j : Fin n} (hij : i ≤ j) (s : S) :
    (upperPart H i).getD (j - i) s = H i j := by
  obtain ⟨k, hk⟩ := Nat.exists_eq_add_of_le (Fin.le_def.mp hij)
  rw [hk, Nat.add_sub_cancel_left, upperPart]
  cases k with
  | zero =>
    obtain rfl : j = i := Fin.ext hk
    rfl
  | succ k =>
    have hj : (List.finRange n)[i.val + 1 + k]? = some j := by
      rw [List.getElem?_eq_getElem (by rw [List.length_finRange]; omega), List.getElem_finRange]
      exact congrArg some (Fin.ext (by rw [Fin.val_cast, hk]; show i.val + 1 + k = _; omega))
    rw [List.getD_cons_succ, filter_lt_finRange, List.getD_eq_getElem?_getD, List.getElem?_map,
      List.getElem?_drop, hj]
    rfl

/-- An entry of a list with one for each index. -/
theorem getD_map_finRange {T : Type} (g : Fin n → T) (i : Fin n) (t : T) :
    ((List.finRange n).map g).getD i t = g i := by
  rw [List.getD_eq_getElem?_getD, List.getElem?_map, List.getElem?_eq_getElem (by simp),
    List.getElem_finRange]
  rfl

/-- **The rows from the diagonal on make up the symmetric matrix.** -/
theorem mirrored_eq [Scalar S] {H : Fin n → Fin n → S} (hsymm : ∀ i j, H i j = H j i)
    (i j : Fin n) : mirrored ((List.finRange n).map (upperPart H)) i j = H i j := by
  unfold mirrored
  rcases le_total i j with hij | hij
  · rw [Nat.min_eq_left (Fin.le_def.mp hij), Nat.max_eq_right (Fin.le_def.mp hij),
      getD_map_finRange, getD_upperPart H hij]
  · rw [Nat.min_eq_right (Fin.le_def.mp hij), Nat.max_eq_left (Fin.le_def.mp hij),
      getD_map_finRange, getD_upperPart H hij, hsymm]

end Rows

section Exact

variable {K E : Type} [Field K] [LinearOrder K] [Scalar K] [ExactScalar K]

/-! ## (4) Differences of such objectives -/

/-- A width without rounding. -/
def exactWidth (h : K) : Width K := ⟨.ok h, .ok (2 * h), .ok (h * h), .ok (4 * (h * h))⟩

theorem ofScalar_eq_exactWidth [IsStrictOrderedRing K] {h : K} (hpos : 0 < h) :
    Width.ofScalar h = .ok (exactWidth h) := by
  simp [Width.ofScalar, exactWidth, not_le.mpr hpos, Except.map]

/-- The quotient by a divisor that is not zero. -/
theorem returns_quotient {y d v : K} (hd : d ≠ 0) (h : y = d * v) :
    ((do quotient y (← (.ok d : Except Fault K))) : Action K E K).Returns v := by
  intro w
  show quotient y d = .ok v
  rw [quotient, ExactScalar.eq_eq, ExactScalar.zero_eq, decide_eq_false hd,
    if_neg Bool.false_ne_true, ExactScalar.div_eq _ _ _ hd, h, mul_div_cancel_left₀ v hd]

/-- A point that is moved along a coordinate differs in that coordinate alone. -/
theorem get_shift {n : ℕ} {move : Precision → K → K → K} (hzero : ∀ a, move .double a 0 = a) (h : K)
    (i : Fin n) (x : Vector K n) :
    (shift move h i x).get = Function.update x.get i (move .double (x.get i) h) := by
  funext j
  by_cases hj : j = i
  · subst hj
    simp [shift, Vector.get_eq_getElem]
  · simp [shift, Vector.get_eq_getElem, hj, hzero]

theorem get_shift_add {n : ℕ} (h : K) (i : Fin n) (x : Vector K n) :
    (shift Scalar.add h i x).get = Function.update x.get i (x.get i + h) := by
  rw [get_shift (fun a => by simp), ExactScalar.add_eq]

theorem get_shift_sub {n : ℕ} (h : K) (i : Fin n) (x : Vector K n) :
    (shift Scalar.sub h i x).get = Function.update x.get i (x.get i - h) := by
  rw [get_shift (fun a => by simp), ExactScalar.sub_eq]

section Objective

variable {f : Objective K E} {n : ℕ} {P : MvPolynomial (Fin n) K} (hf : f.Evaluates P)
  (p : Precision) (hn : 0 < n) (x : Vector K n)
include hf

theorem returns_valueAt : (valueAt f p hn x).Returns (eval x.get P) := by
  intro w
  have hcolumn : (.ofFn p hn Nat.one_pos fun i _ => x.get i : DenseMatrix K) =
      .columnOf p hn x.get := by
    simp [DenseMatrix.ofFn, DenseMatrix.columnOf]
  rw [valueAt, hcolumn, Action.bind_of_ok (show Action.add (.columnOf p hn x.get) w =
    (.ok w.store.size, { w with store := w.store.add (.columnOf p hn x.get) }) from rfl)]
  exact hf _ _ p hn x.get (Store.get?_add_size _ _)

variable [IsStrictOrderedRing K] {h : K} (hpos : 0 < h)
include hpos

/-- **The central difference** returns the derivative of a polynomial of degree two at most. -/
theorem returns_partialDerivative (hP : P.totalDegree ≤ 2) (i : Fin n) :
    (partialDerivative f (exactWidth h) p hn x i).Returns (eval x.get (pderiv i P)) := by
  refine (Action.returns_given h).bind ?_
  refine (returns_valueAt hf p hn _).bind ?_
  refine (returns_valueAt hf p hn _).bind ?_
  rw [get_shift_add, get_shift_sub, ExactScalar.sub_eq]
  exact returns_quotient (by positivity) (sub_of_totalDegree_le x.get h hP i)

/-- **The second difference** returns the second derivative of a polynomial of degree three at
most. -/
theorem returns_secondDerivative (hP : P.totalDegree ≤ 3) (i : Fin n) :
    (secondDerivative f (exactWidth h) p hn x (eval x.get P) i).Returns
      (eval x.get (pderiv i (pderiv i P))) := by
  refine (Action.returns_given h).bind ?_
  refine (returns_valueAt hf p hn _).bind ?_
  refine (returns_valueAt hf p hn _).bind ?_
  rw [get_shift_add, get_shift_sub]
  simp only [ExactScalar.sub_eq, ExactScalar.add_eq, ExactScalar.mul_eq, ExactScalar.ofNat_eq,
    Nat.cast_ofNat]
  exact returns_quotient (by positivity) (second_of_totalDegree_le x.get h hP i)

/-- **The mixed difference** returns the mixed derivative of a polynomial of degree three at
most. -/
theorem returns_mixedDerivative (hP : P.totalDegree ≤ 3) {i j : Fin n} (hij : i ≠ j) :
    (mixedDerivative f (exactWidth h) p hn x i j).Returns (eval x.get (pderiv i (pderiv j P))) := by
  refine (Action.returns_given h).bind ?_
  refine (returns_valueAt hf p hn _).bind ?_
  refine (returns_valueAt hf p hn _).bind ?_
  refine (returns_valueAt hf p hn _).bind ?_
  refine (returns_valueAt hf p hn _).bind ?_
  simp only [get_shift_add, get_shift_sub, ExactScalar.sub_eq, ExactScalar.add_eq,
    Function.update_of_ne hij.symm]
  exact returns_quotient (by positivity) (mixed_of_totalDegree_le x.get h hP hij)

/-- **A row of second differences** returns the second derivatives from the diagonal one on. -/
theorem returns_upperRow (hP : P.totalDegree ≤ 3) (i : Fin n) :
    (upperRow f (exactWidth h) p hn x (eval x.get P) i).Returns
      (upperPart (fun i j => eval x.get (pderiv i (pderiv j P))) i) := by
  refine (returns_secondDerivative hf p hn x hpos hP i).bind
    (Action.Returns.bind ?_ (Action.returns_pure _))
  refine Action.returns_mapM fun j hj => returns_mixedDerivative hf p hn x hpos hP ?_
  exact (of_decide_eq_true (List.mem_filter.mp hj).2).ne

/-- Of the partial derivatives a column is made. -/
theorem returns_column (hP : P.totalDegree ≤ 2) :
    (do
      let values ← (List.finRange n).mapM (partialDerivative f (exactWidth h) p hn x)
      return .ofFn p hn Nat.one_pos fun i _ => values.getD i Scalar.zero :
      Action K E (DenseMatrix K)).Returns (.columnOf p hn fun i => eval x.get (pderiv i P)) := by
  refine (Action.returns_mapM fun i _ => returns_partialDerivative hf p hn x hpos hP i).bind ?_
  have hentry (i : Fin n) :
      ((List.finRange n).map fun i => eval x.get (pderiv i P)).getD i Scalar.zero =
      eval x.get (pderiv i P) := getD_map_finRange _ i _
  simp only [DenseMatrix.ofFn, hentry, ExactScalar.round_eq]
  exact Action.returns_pure _

/-- Of the rows a square matrix is made. -/
theorem returns_square (hP : P.totalDegree ≤ 3) :
    (do
      let rows ← (List.finRange n).mapM (upperRow f (exactWidth h) p hn x (eval x.get P))
      return .ofFn p hn hn fun i j => mirrored rows i j : Action K E (DenseMatrix K)).Returns
      (.squareOf p hn fun i j => eval x.get (pderiv i (pderiv j P))) := by
  refine (Action.returns_mapM fun i _ => returns_upperRow hf p hn x hpos hP i).bind ?_
  have hsymm (i j : Fin n) :
      eval x.get (pderiv i (pderiv j P)) = eval x.get (pderiv j (pderiv i P)) := by
    rw [pderiv_comm]
  simp only [DenseMatrix.ofFn, mirrored_eq hsymm, ExactScalar.round_eq]
  exact Action.returns_pure _

end Objective

/-! ## (5) Gradients and Hessians -/

/-- **Differences are exact on polynomials of a low degree.** Let the scalars be exact and the
objective evaluate a polynomial `P` in `n` variables. Then, at every column and for every width
above zero, the gradient by central differences is the gradient of `P` if the degree of `P` is at
most two, and the Hessian by second differences is the Hessian of `P`, in every entry, if the degree
of `P` is at most three. -/
theorem exact_of_totalDegree_le [IsStrictOrderedRing K] {f : Objective K E} {n : ℕ} (hn : 0 < n)
    {P : MvPolynomial (Fin n) K} (hf : f.Evaluates P) (x : Fin n → K) (p : Precision) {h : K}
    (hpos : 0 < h) {r : Ref} {w : World K E} (hx : w.store.get? r = some (.columnOf p hn x)) :
    (P.totalDegree ≤ 2 → ∃ w', gradient f (Width.ofScalar h) (.matrix r) w =
      (.ok (.columnOf p hn fun i => eval x (pderiv i P)), w')) ∧
    (P.totalDegree ≤ 3 → ∃ w', hessian f (Width.ofScalar h) (.matrix r) w =
      (.ok (.squareOf p hn fun i j => eval x (pderiv i (pderiv j P))), w')) := by
  have hget : (Vector.ofFn x).get = x := by
    funext i
    simp [Vector.get_eq_getElem]
  constructor
  · intro hP
    have hcolumn := returns_column hf p hn (.ofFn x) hpos hP
    rw [hget] at hcolumn
    refine ⟨_, Prod.ext ?_ rfl⟩
    rw [gradient, ofScalar_eq_exactWidth hpos, Action.bind_given,
      Action.bind_of_ok (pointOf_matrix r w), Store.get_of_get? hx, coordinates_columnOf,
      Action.bind_given]
    exact hcolumn w
  · intro hP
    have hcentre := returns_valueAt hf p hn (.ofFn x)
    have hsquare := returns_square hf p hn (.ofFn x) hpos hP
    rw [hget] at hcentre hsquare
    refine ⟨_, Prod.ext ?_ rfl⟩
    rw [hessian, ofScalar_eq_exactWidth hpos, Action.bind_given,
      Action.bind_of_ok (pointOf_matrix r w), Store.get_of_get? hx, coordinates_columnOf,
      Action.bind_given]
    exact (hcentre.bind hsquare) w

/-! ### A product and a cubic -/

/-- The world that holds nothing but the column of one and two. -/
def oneTwoWorld : World ℚ Unit :=
  ⟨⟨#[.columnOf .double Nat.two_pos ![1, 2]]⟩, ⟨.double, 1⟩, .initial, ()⟩

/-- The gradient of `x y` at `(1, 2)` is `(2, 1)`, and the Hessian of `x x y` there has the rows
`(4, 2)` and `(2, 0)`, for every width. -/
theorem exact_of_totalDegree_le_of_cubic :
    (∃ w', gradient (.ofPolynomial (X 0 * X 1 : MvPolynomial (Fin 2) ℚ))
        (Width.ofScalar (1 / 10)) (.matrix 0) oneTwoWorld =
      (.ok (.columnOf .double Nat.two_pos ![2, 1]), w')) ∧
    ∃ w', hessian (.ofPolynomial (X 0 * X 0 * X 1 : MvPolynomial (Fin 2) ℚ))
        (Width.ofScalar (1 / 10)) (.matrix 0) oneTwoWorld =
      (.ok (.squareOf .double Nat.two_pos ![![4, 2], ![2, 0]]), w') := by
  have hproduct : (X 0 * X 1 : MvPolynomial (Fin 2) ℚ).totalDegree ≤ 2 :=
    (totalDegree_mul _ _).trans (by rw [totalDegree_X, totalDegree_X])
  have hcubic : (X 0 * X 0 * X 1 : MvPolynomial (Fin 2) ℚ).totalDegree ≤ 3 :=
    (totalDegree_mul _ _).trans
      (Nat.add_le_add ((totalDegree_mul _ _).trans (by rw [totalDegree_X])) (totalDegree_X _).le)
  have hwidth : (0 : ℚ) < 1 / 10 := by norm_num
  have hpoint : oneTwoWorld.store.get? 0 = some (.columnOf .double Nat.two_pos ![1, 2]) := rfl
  have hfirst : (fun i => eval ![1, 2] (pderiv i (X 0 * X 1 : MvPolynomial (Fin 2) ℚ))) =
      ![2, 1] := by
    funext i
    fin_cases i <;> simp [pderiv_X]
  have hsecond :
      (fun i j => eval ![1, 2] (pderiv i (pderiv j (X 0 * X 0 * X 1 : MvPolynomial (Fin 2) ℚ)))) =
      ![![4, 2], ![2, 0]] := by
    funext i j
    fin_cases i <;> fin_cases j <;> simp [pderiv_X] <;> norm_num
  rw [← hfirst, ← hsecond]
  exact ⟨(exact_of_totalDegree_le Nat.two_pos (Objective.evaluates_ofPolynomial _) _ _ hwidth
    hpoint).1 hproduct, (exact_of_totalDegree_le Nat.two_pos (Objective.evaluates_ofPolynomial _)
    _ _ hwidth hpoint).2 hcubic⟩

end Exact

end Differences

end NewtonRaphson
