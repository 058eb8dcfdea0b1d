import NewtonRaphson.Proofs.Differences.Evaluations
import NewtonRaphson.Proofs.Differences.Exact
import NewtonRaphson.Proofs.Differences.SideBySide
import NewtonRaphson.Proofs.Double.Order

/-! # What differences evaluate

How many evaluations a difference makes, and that none is made twice, is a fact about its moves.
With doubles the offset is the width itself, so that the moves lead to the points one expects; but
the square of an accepted width may be lost or out of range, and then a Hessian is refused when the
first quotient is formed. The objective is only supposed to return, and to take no matrix out of the
store. It may overwrite what it is given, and look at its own state.

* **`Objective.OnlyOwn`** — the objective overwrites nothing but the matrix that it is given;
  **`World.Preserves`** — what is held stays; **`Differences.leaves_gradient`**,
  **`Differences.leaves_hessian`** — so does the point.
* **`Differences.length_hessianMoves`**, **`Differences.nodup_hessianMoves`** — the number of moves,
  and that they are different.
* **`Differences.symmetric_of_hessian_eq_ok`** — a Hessian that is returned is symmetric.
* **`Differences.Unbounded`** — undefined or infinite, as an accepted width may be;
  **`Differences.exists_width_of_accepted`** — what an accepted width divides by, and
  **`Differences.hessianFault?`**, the fault that this may be.
* **`Differences.evaluations_of_width`** — where and how often gradients and Hessians evaluate their
  objective. -/

namespace NewtonRaphson

/-- An objective that overwrites **only its own** point, which is the matrix that it is given. -/
def Objective.OnlyOwn {S E : Type} (f : Objective S E) : Prop :=
  ∀ r q, q ≠ r → (f r).Leaves (.matrix q)

/-- A world **preserves** what another one holds if every matrix stays as it is. -/
def World.Preserves {S E : Type} (w w' : World S E) : Prop :=
  ∀ x m, w.held x = some m → w'.held x = some m

/-- Preserving is a frame. -/
theorem World.isFrame_preserves {S E : Type} :
    World.IsFrame (World.Preserves : World S E → World S E → Prop) where
  refl _ _ _ h := h
  trans h h' x m hx := h' x m (h x m hx)
  journal _ _ _ _ h := h

namespace Differences

/-! ## (1) How many moves there are -/

section Moves

variable {n : ℕ}

/-- The coordinate of a move. -/
def Move.coordinate : Move n → Fin n
  | up i => i
  | down i => i

/-- A list of parts has no duplicates if no part has, and each part can be told by its members. -/
theorem nodup_flatMap_of_key {α β : Type} {xs : List α} (hxs : xs.Nodup) {parts : α → List β}
    (hparts : ∀ a, (parts a).Nodup) (key : β → Option α)
    (hkey : ∀ a, ∀ b ∈ parts a, key b = some a) : (xs.flatMap parts).Nodup := by
  refine List.nodup_flatMap.mpr ⟨fun a _ => hparts a, hxs.imp fun {a a'} hne b hb hb' => hne ?_⟩
  exact Option.some.inj ((hkey a b hb).symm.trans (hkey a' b hb'))

/-- What moves along one coordinate are. -/
theorem mem_straight {i : Fin n} {moves : List (Move n)} :
    moves ∈ straight i ↔ ∃ move : Move n, move.coordinate = i ∧ moves = [move] := by
  constructor
  · intro h
    simp only [straight, List.mem_cons, List.not_mem_nil, or_false] at h
    rcases h with rfl | rfl
    · exact ⟨.up i, rfl, rfl⟩
    · exact ⟨.down i, rfl, rfl⟩
  · rintro ⟨i | i, rfl, rfl⟩ <;> simp [straight, Move.coordinate]

/-- What moves along two coordinates are. -/
theorem mem_crossed {i j : Fin n} {moves : List (Move n)} :
    moves ∈ crossed i j ↔ ∃ first second : Move n, first.coordinate = i ∧ second.coordinate = j ∧
      moves = [first, second] := by
  constructor
  · intro h
    simp only [crossed, List.mem_cons, List.not_mem_nil, or_false] at h
    rcases h with rfl | rfl | rfl | rfl
    · exact ⟨.up i, .up j, rfl, rfl, rfl⟩
    · exact ⟨.up i, .down j, rfl, rfl, rfl⟩
    · exact ⟨.down i, .up j, rfl, rfl, rfl⟩
    · exact ⟨.down i, .down j, rfl, rfl, rfl⟩
  · rintro ⟨i | i, j | j, rfl, rfl, rfl⟩ <;> simp [crossed, Move.coordinate]

/-- A gradient takes two moves for each coordinate. -/
theorem length_gradientMoves (n : ℕ) : (gradientMoves n).length = 2 * n := by
  simp [gradientMoves, straight, List.length_flatMap, mul_comm]

/-- They are all different. -/
theorem nodup_gradientMoves (n : ℕ) : (gradientMoves n).Nodup := by
  apply nodup_flatMap_of_key (List.nodup_finRange n) _ fun moves => moves.head?.map Move.coordinate
  · intro i moves hmoves
    obtain ⟨move, rfl, rfl⟩ := mem_straight.mp hmoves
    rfl
  · intro i
    simp [straight]

/-- A row takes two moves, and four for each later coordinate. -/
theorem length_rowMoves (i : Fin n) : (rowMoves i).length = 2 + 4 * (n - 1 - i) := by
  have hlater : ((List.finRange n).filter (i < ·)).length = n - 1 - i := by
    rw [filter_lt_finRange, List.length_drop, List.length_finRange]
    omega
  simp only [rowMoves, straight, crossed, List.length_append, List.length_flatMap, List.length_cons,
    List.length_nil, List.map_const', List.sum_replicate, hlater, smul_eq_mul]
  omega

/-- They are all different, as the later coordinates are. -/
theorem nodup_rowMoves (i : Fin n) : (rowMoves i).Nodup := by
  refine List.nodup_append.mpr ⟨by simp [straight], ?_, ?_⟩
  · apply nodup_flatMap_of_key ((List.nodup_finRange n).filter _) _ fun moves =>
      moves.getLast?.map Move.coordinate
    · intro j moves hmoves
      obtain ⟨first, second, -, rfl, rfl⟩ := mem_crossed.mp hmoves
      rfl
    · intro j
      simp [crossed]
  · -- one move is no pair of moves
    intro moves hmoves moves' hmoves' heq
    obtain ⟨move, -, rfl⟩ := mem_straight.mp hmoves
    obtain ⟨j, -, hcrossed⟩ := List.mem_flatMap.mp hmoves'
    obtain ⟨first, second, -, -, rfl⟩ := mem_crossed.mp hcrossed
    cases heq

/-- **A Hessian takes** one evaluation at the point, two for each coordinate, and four for each pair
of them. -/
theorem length_hessianMoves (n : ℕ) : (hessianMoves n).length = 2 * n ^ 2 + 1 := by
  -- the later coordinates of all rows, counted from the last row on
  have hsum : ∑ i : Fin n, (n - 1 - i) = ∑ i ∈ Finset.range n, i := by
    rw [Fin.sum_univ_eq_sum_range (fun i => n - 1 - i) n]
    exact Finset.sum_range_reflect (fun i => i) n
  have hpairs : (∑ i ∈ Finset.range n, i) * 2 = n * (n - 1) := Finset.sum_range_id_mul_two n
  have hrows : ((List.finRange n).map fun i => (rowMoves i).length).sum = 2 * n ^ 2 := by
    simp only [length_rowMoves]
    rw [← Fin.sum_univ_def, Finset.sum_add_distrib, ← Finset.mul_sum, hsum, Finset.sum_const,
      Finset.card_univ, Fintype.card_fin, smul_eq_mul]
    cases n with
    | zero => rfl
    | succ k =>
      rw [Nat.add_sub_cancel] at hpairs
      calc (k + 1) * 2 + 4 * ∑ i ∈ Finset.range (k + 1), i
          = (k + 1) * 2 + 2 * ((∑ i ∈ Finset.range (k + 1), i) * 2) := by ring
        _ = 2 * (k + 1) ^ 2 := by rw [hpairs]; ring
  rw [hessianMoves, List.length_cons, List.length_flatMap, hrows]

/-- The moves of a row begin along its coordinate. -/
theorem head_of_mem_rowMoves {i : Fin n} {moves : List (Move n)} (h : moves ∈ rowMoves i) :
    moves.head?.map Move.coordinate = some i := by
  rcases List.mem_append.mp h with h | h
  · obtain ⟨move, rfl, rfl⟩ := mem_straight.mp h
    rfl
  · obtain ⟨j, -, hcrossed⟩ := List.mem_flatMap.mp h
    obtain ⟨first, second, rfl, -, rfl⟩ := mem_crossed.mp hcrossed
    rfl

/-- **They are all different**: each point around the given one is taken once. -/
theorem nodup_hessianMoves (n : ℕ) : (hessianMoves n).Nodup := by
  refine List.nodup_cons.mpr ⟨fun hnone => ?_, ?_⟩
  · obtain ⟨i, -, hrow⟩ := List.mem_flatMap.mp hnone
    exact absurd (head_of_mem_rowMoves hrow) nofun
  · -- the first coordinate tells the row
    exact nodup_flatMap_of_key (List.nodup_finRange n) nodup_rowMoves
      (fun moves => moves.head?.map Move.coordinate) fun i moves => head_of_mem_rowMoves

end Moves

variable {S E : Type} [Scalar S]

/-! ## (2) What is returned -/

section Results

variable {f : Objective S E} {width : Width S} {r : Ref} {w w' : World S E}

/-- A gradient that is returned is a column of the size and precision of the point. -/
theorem shape_of_gradient_eq_ok {g : DenseMatrix S} (hx : (w.store.get r).isVector = true)
    (h : gradient f (.ok width) (.matrix r) w = (.ok g, w')) :
    g.precision = (w.store.get r).precision ∧ g.shape = ((w.store.get r).rows, 1) := by
  rw [gradient_matrix f width rfl hx] at h
  obtain ⟨values, w₁, -, hg⟩ := Action.bind_eq_ok_iff.mp h
  cases hg
  exact ⟨rfl, rfl⟩

/-- A matrix with symmetric entries is its own transpose, whatever rounding does. -/
theorem transpose_ofFn (p : Precision) {n : ℕ} (hn : 0 < n) {F : Fin n → Fin n → S}
    (hsymm : ∀ i j, F i j = F j i) : (DenseMatrix.ofFn p hn hn F).transpose = .ofFn p hn hn F := by
  have hgrid : (Grid.ofFn fun i j => Scalar.round p (F i j)).transpose =
      .ofFn fun i j => Scalar.round p (F i j) :=
    Grid.ext fun i j => by rw [Grid.get_transpose, Grid.get_ofFn, Grid.get_ofFn, hsymm]
  exact congrArg (DenseMatrix.mk p n n hn hn) hgrid

/-- An entry of a symmetric matrix is that with row and column exchanged. -/
theorem mirrored_comm (rows : List (List S)) (i j : ℕ) : mirrored rows i j = mirrored rows j i := by
  rw [mirrored, mirrored, Nat.min_comm, Nat.max_comm]

/-- **A Hessian that is returned is symmetric**, whatever the objective answered. -/
theorem symmetric_of_hessian_eq_ok {h : DenseMatrix S} (hx : (w.store.get r).isVector = true)
    (hh : hessian f (.ok width) (.matrix r) w = (.ok h, w')) :
    h.precision = (w.store.get r).precision ∧ h.shape =
      ((w.store.get r).rows, (w.store.get r).rows) ∧ h.transpose = h := by
  rw [hessian_matrix f width rfl hx] at hh
  obtain ⟨centre, w₁, -, hrest⟩ := Action.bind_eq_ok_iff.mp hh
  obtain ⟨rows, w₂, -, hmatrix⟩ := Action.bind_eq_ok_iff.mp hrest
  cases hmatrix
  exact ⟨rfl, rfl, transpose_ofFn _ _ fun i j => mirrored_comm rows i j⟩

end Results

/-! ## (3) What stays as it is -/

section Isolation

variable {f : Objective S E} (hown : f.OnlyOwn)
include hown

/-- The value at a point preserves every matrix, as the objective is given a new one. -/
theorem stays_valueAt_preserves (p : Precision) (n : ℕ) (hn : 0 < n) (x : Vector S n) :
    (valueAt f p hn x).Stays World.Preserves := by
  intro w y m hm
  cases y with
  | matrix q =>
    have hnew : q ≠ w.store.size := Nat.ne_of_lt (Store.lt_size_of_get? hm)
    exact hown _ q hnew _ m (Action.leaves_add _ (.matrix q) w m hm)
  | plain d => cases hm

/-- **A gradient leaves every matrix alone**, the point too. -/
theorem leaves_gradient (width : Except Fault (Width S)) (x y : Value) :
    (gradient f width x).Leaves y :=
  fun w => stays_gradient_of_valueAt World.isFrame_preserves
    (stays_valueAt_preserves hown) width x w y

/-- **So does a Hessian.** -/
theorem leaves_hessian (width : Except Fault (Width S)) (x y : Value) :
    (hessian f width x).Leaves y :=
  fun w => stays_hessian_of_valueAt World.isFrame_preserves
    (stays_valueAt_preserves hown) width x w y

end Isolation

/-! ## (4) What is refused -/

section Refused

open NewtonRaphson.Action (EvaluatesFrom)

variable (f : Objective S E)

/-- A width that is refused is refused before anything is evaluated. -/
theorem evaluates_of_width_refused (cause : Fault) (x : Value) (w : World S E) :
    EvaluatesFrom w (gradient f (.error cause) x) (gradient f.logged (.error cause) x) []
        (some cause) ∧
      EvaluatesFrom w (hessian f (.error cause) x) (hessian f.logged (.error cause) x) []
        (some cause) :=
  ⟨.of_refused rfl fun _ => rfl, .of_refused rfl fun _ => rfl⟩

/-- A point that is no column is refused, for every objective. -/
theorem refused_of_not_vector (f : Objective S E) (width : Width S) {m : DenseMatrix S} {r : Ref}
    {w : World S E} (hm : w.store.get r = m) (hx : m.isVector = false) :
    gradient f (.ok width) (.matrix r) w = (.error (.pointShape m.shape), w) ∧
      hessian f (.ok width) (.matrix r) w = (.error (.pointShape m.shape), w) := by
  subst hm
  have hcoordinates : coordinates (w.store.get r) = .error (.pointShape (w.store.get r).shape) :=
    if_neg (Bool.eq_false_iff.mp hx)
  constructor
  · rw [gradient, Action.bind_given, Action.bind_of_ok (pointOf_matrix r w), hcoordinates]
    rfl
  · rw [hessian, Action.bind_given, Action.bind_of_ok (pointOf_matrix r w), hcoordinates]
    rfl

end Refused

/-! ## (5) Accepted widths in doubles -/

section Doubles

open Double

variable {x y : Float}

/-- A double is **unbounded** if it is undefined or the positive infinity. -/
def Unbounded (x : Float) : Prop := parts x = .notANumber ∨ parts x = .infinity .positive

/-- A number above zero times an unbounded double is unbounded. -/
theorem Unbounded.mul (hx : Unbounded x) (hy : Scalar.lt Scalar.zero y = true) :
    Unbounded (y * x) :=
  hx.imp parts_mul_undefined fun hinfinite => parts_mul_positive_infinity hinfinite hy

/-- So is its square. -/
theorem Unbounded.square (hx : Unbounded x) : Unbounded (x * x) := by
  rcases hx with hundefined | hinfinite
  · exact .inl (parts_mul_undefined hundefined)
  · refine .inr (parts_mul_positive_infinity hinfinite ?_)
    rw [scalar_lt_eq, hinfinite]
    rfl

/-- An unbounded double is no number. -/
theorem Unbounded.ofFloat?_eq_none (hx : Unbounded x) : Binary.ofFloat? x = none := by
  rw [ofFloat?_eq]
  rcases hx with h | h
  · rw [h]
    rfl
  · rw [h]
    rfl

/-- It divides. -/
theorem Unbounded.divisionFault? (hx : Unbounded x) : divisionFault? (.ok x) = none := by
  have hnonzero : ¬ Scalar.eq x Scalar.zero = true := by
    intro hzero
    obtain ⟨b, hb, -⟩ := isZero_iff.mp (eq_zero_iff.mp hzero)
    rw [hx.ofFloat?_eq_none] at hb
    cases hb
  exact if_neg hnonzero

/-- The **fault of a Hessian** with an accepted width: that of a division by its square, if it is a
number. -/
def hessianFault? (x : Float) : Option Fault :=
  (Binary.ofFloat? x).bind fun b => squareFault? b.magnitude

/-- An unbounded width, of which no square is refused. -/
theorem Unbounded.ofScalar_eq (hx : Unbounded x) (haccepted : Scalar.le x Scalar.zero = false) :
    Width.ofScalar x = .ok {
      offset := .ok x
      doubled := .ok (Scalar.mul .double (Scalar.ofNat 2) x)
      squared := .ok (x * x)
      fourSquared := .ok (Scalar.mul .double (Scalar.ofNat 4) (x * x)) } := by
  have hinfinite : Scalar.isFinite x = false := by
    refine Bool.eq_false_iff.mpr fun hfinite => ?_
    obtain ⟨b, hb⟩ := exists_ofFloat?_of_isFinite hfinite
    rw [hx.ofFloat?_eq_none] at hb
    cases hb
  unfold Width.ofScalar
  rw [haccepted, if_neg Bool.false_ne_true, hinfinite]
  rfl

/-- **What an accepted width is**: the offset is the width, twice the width divides, and the square
and four times the square divide or are refused alike. -/
theorem exists_width_of_accepted (hx : Scalar.le x Scalar.zero = false) :
    ∃ width, Width.ofScalar x = .ok width ∧ width.offset = .ok x ∧
      divisionFault? width.doubled = none ∧
      divisionFault? width.squared = hessianFault? x ∧
      divisionFault? width.fourSquared = hessianFault? x := by
  have hcases : Unbounded x ∨ ∃ b, Binary.ofFloat? x = some b ∧ Scalar.lt Scalar.zero x = true := by
    rcases cases_of_not_le_zero hx with hundefined | hinfinite | ⟨b, hb, -, m, e, hm, hparts⟩
    · exact .inl (.inl hundefined)
    · exact .inl (.inr hinfinite)
    · refine .inr ⟨b, hb, ?_⟩
      rw [scalar_lt_eq, hparts]
      rfl
  rcases hcases with hunbounded | ⟨b, hb, hpos⟩
  · -- what is unbounded stays so in every product, and divides
    have hnone : hessianFault? x = none := by
      rw [hessianFault?, hunbounded.ofFloat?_eq_none]
      rfl
    rw [hnone]
    refine ⟨_, hunbounded.ofScalar_eq hx, rfl, ?_, hunbounded.square.divisionFault?, ?_⟩
    · exact (hunbounded.mul (by decide +kernel)).divisionFault?
    · exact (hunbounded.square.mul (by decide +kernel)).divisionFault?
  · -- a number divides unless its square is lost, which four times the square is then, too
    have hfault : hessianFault? x = squareFault? b.magnitude := by
      rw [hessianFault?, hb]
      rfl
    have hsquared := divisionFault?_square hb
    rw [hfault]
    exact ⟨_, ofScalar_eq hb hpos, rfl, (divisionFault?_two_mul hb (not_isZero_of_lt hpos).1).1,
      hsquared, (divisionFault?_four_mul_square hb).1.trans hsquared⟩

end Doubles

/-! ## (6) Differences in doubles -/

section Evaluations

variable {E : Type}

/-- Where a **gradient** with a width evaluates its objective, and how it ends. -/
def GradientEvaluates (f : Objective Float E) (x : Float) (y : Value) (w : World Float E)
    (points : List (DenseMatrix Float)) (fault? : Option Fault) : Prop :=
  Action.EvaluatesFrom w (gradient f (Width.ofScalar x) y) (gradient f.logged (Width.ofScalar x) y)
    points fault?

/-- Where a **Hessian** with a width evaluates its objective, and how it ends. -/
def HessianEvaluates (f : Objective Float E) (x : Float) (y : Value) (w : World Float E)
    (points : List (DenseMatrix Float)) (fault? : Option Fault) : Prop :=
  Action.EvaluatesFrom w (hessian f (Width.ofScalar x) y) (hessian f.logged (Width.ofScalar x) y)
    points fault?

/-- The points that some moves by a width lead to. -/
def pointsAt (m : DenseMatrix Float) (x : Float) (moves : List (List (Move m.rows))) :
    List (DenseMatrix Float) :=
  moves.map (pointAt m.precision m.rows_pos x (firstColumn m))

section Accepted

variable {x : Float} {f : Objective Float E} (hf : ∀ r, (f r).Ends none)
  (hgrows : ∀ r w, w.store.size ≤ (f r w).2.store.size) {r : Ref} {w : World Float E}
  {m : DenseMatrix Float}
  (haccepted : Scalar.le x Scalar.zero = false) (hm : w.store.get r = m) (hx : m.isVector = true)
include hf hgrows haccepted hm hx

/-- **A gradient at a column** with an accepted width is returned after two evaluations for each
coordinate. -/
theorem gradientEvaluates_of_accepted :
    GradientEvaluates f x (.matrix r) w (pointsAt m x (gradientMoves m.rows)) none ∧
      ∀ g w', gradient f (Width.ofScalar x) (.matrix r) w = (.ok g, w') →
        g.precision = m.precision ∧ g.shape = (m.rows, 1) := by
  obtain ⟨width, hwidth, hoffset, hdoubled, -⟩ := exists_width_of_accepted haccepted
  subst hm
  rw [GradientEvaluates, hwidth]
  exact ⟨evaluates_gradient hf hgrows hoffset rfl hx hdoubled,
    fun g w' => shape_of_gradient_eq_ok hx⟩

/-- **A Hessian at a column** with an accepted width is returned after all evaluations, and
symmetric, or it is refused after the first three. -/
theorem hessianEvaluates_of_accepted :
    (hessianFault? x = none →
      HessianEvaluates f x (.matrix r) w (pointsAt m x (hessianMoves m.rows)) none ∧
      ∀ h w', hessian f (Width.ofScalar x) (.matrix r) w = (.ok h, w') →
        h.precision = m.precision ∧ h.shape = (m.rows, m.rows) ∧ h.transpose = h) ∧
    ∀ cause, hessianFault? x = some cause →
      HessianEvaluates f x (.matrix r) w (pointsAt m x ((hessianMoves m.rows).take 3))
        (some cause) := by
  obtain ⟨width, hwidth, hoffset, -, hsquared, hfour⟩ := exists_width_of_accepted haccepted
  subst hm
  rw [HessianEvaluates, hwidth]
  constructor
  · intro hnone
    rw [hnone] at hsquared hfour
    exact ⟨evaluates_hessian hf hgrows hoffset rfl hx hsquared hfour,
      fun h w' => symmetric_of_hessian_eq_ok hx⟩
  · intro cause hcause
    rw [HessianEvaluates, hwidth]
    exact evaluates_hessian_of_refused hf hgrows hoffset rfl hx (hsquared.trans hcause)

end Accepted

/-- Widths that are not accepted and points that are no columns are refused before anything is
evaluated. -/
theorem evaluates_of_refused (x : Float) (f : Objective Float E) (w : World Float E) :
    (Scalar.le x Scalar.zero = true → ∀ y,
      GradientEvaluates f x y w [] (some .widthSign) ∧
      HessianEvaluates f x y w [] (some .widthSign)) ∧
    (Scalar.le x Scalar.zero = false → ∀ r m, w.store.get r = m → m.isVector = false →
      GradientEvaluates f x (.matrix r) w [] (some (.pointShape m.shape)) ∧
        HessianEvaluates f x (.matrix r) w [] (some (.pointShape m.shape))) := by
  constructor
  · intro hsign y
    have hwidth : Width.ofScalar x = .error .widthSign := if_pos hsign
    rw [GradientEvaluates, HessianEvaluates, hwidth]
    exact evaluates_of_width_refused f .widthSign y w
  · intro haccepted r m hm hx
    obtain ⟨width, hwidth, -⟩ := exists_width_of_accepted haccepted
    rw [GradientEvaluates, HessianEvaluates, hwidth]
    obtain ⟨hgradient, hhessian⟩ := refused_of_not_vector f width hm hx
    exact ⟨.of_refused hgradient fun _ => (refused_of_not_vector f.logged width hm hx).1,
      .of_refused hhessian fun _ => (refused_of_not_vector f.logged width hm hx).2⟩

/-- **What differences evaluate**, for every objective that always returns. If the width is not
above zero or the point is no column, they are refused before anything is evaluated. Otherwise a
gradient takes the points up and down along each coordinate in turn, each in a new matrix of the
precision of the point, whatever the objective does to the matrices it is given, and returns a
column. If the width is no number, or its square is neither lost nor out of range, a Hessian takes
the point, the points along each coordinate and those crosswise with each later one, and returns a
symmetric matrix; otherwise it is refused after the first three evaluations. The moves are all
different: `2 * n` for a gradient and `2 * n ^ 2 + 1` for a Hessian. An objective that overwrites
only the matrices it is given leaves the point and all others alone. -/
theorem evaluations_of_width (x : Float) {f : Objective Float E} (hf : ∀ r, (f r).Ends none)
    (hgrows : ∀ r w, w.store.size ≤ (f r w).2.store.size) :
    (Scalar.le x Scalar.zero = true → Fault.widthSign.kind = .value ∧ ∀ y w,
      GradientEvaluates f x y w [] (some .widthSign) ∧
      HessianEvaluates f x y w [] (some .widthSign)) ∧
    (Scalar.le x Scalar.zero = false → ∀ r w m, w.store.get r = m →
      (m.isVector = false → (Fault.pointShape m.shape).kind = .value ∧
        GradientEvaluates f x (.matrix r) w [] (some (.pointShape m.shape)) ∧
        HessianEvaluates f x (.matrix r) w [] (some (.pointShape m.shape))) ∧
      (m.isVector = true →
        (GradientEvaluates f x (.matrix r) w (pointsAt m x (gradientMoves m.rows)) none ∧
          ∀ g w', gradient f (Width.ofScalar x) (.matrix r) w = (.ok g, w') →
            g.precision = m.precision ∧ g.shape = (m.rows, 1)) ∧
        (hessianFault? x = none →
          HessianEvaluates f x (.matrix r) w (pointsAt m x (hessianMoves m.rows)) none ∧
          ∀ h w', hessian f (Width.ofScalar x) (.matrix r) w = (.ok h, w') →
            h.precision = m.precision ∧ h.shape = (m.rows, m.rows) ∧ h.transpose = h) ∧
        ∀ cause, hessianFault? x = some cause →
          HessianEvaluates f x (.matrix r) w (pointsAt m x ((hessianMoves m.rows).take 3))
            (some cause))) ∧
    (f.OnlyOwn → ∀ y z, (gradient f (Width.ofScalar x) y).Leaves z ∧
      (hessian f (Width.ofScalar x) y).Leaves z) ∧
    ∀ n, (gradientMoves n).length = 2 * n ∧ (gradientMoves n).Nodup ∧
      (hessianMoves n).length = 2 * n ^ 2 + 1 ∧ (hessianMoves n).Nodup := by
  refine ⟨fun hsign => ⟨rfl, fun y w => (evaluates_of_refused x f w).1 hsign y⟩, ?_, ?_, ?_⟩
  · intro haccepted r w m hm
    constructor
    · intro hx
      exact ⟨rfl, (evaluates_of_refused x f w).2 haccepted r m hm hx⟩
    · intro hx
      exact ⟨gradientEvaluates_of_accepted hf hgrows haccepted hm hx,
        hessianEvaluates_of_accepted hf hgrows haccepted hm hx⟩
  · intro hown y z
    exact ⟨leaves_gradient hown _ y z, leaves_hessian hown _ y z⟩
  · intro n
    exact ⟨length_gradientMoves n, nodup_gradientMoves n, length_hessianMoves n,
      nodup_hessianMoves n⟩

end Evaluations

/-! ### An objective that overwrites its point -/

/-- The objective with the value one everywhere that overwrites the matrix it is given by a single
zero. -/
def scribbling : Objective Float Unit := fun r => do
  Action.write r (.zeros .double 1 1 Nat.one_pos Nat.one_pos)
  return 1.0

/-- The world that holds the origin of the plane and a row of two zeros. -/
def planeWorld : World Float Unit :=
  ⟨⟨#[.zeros .double 2 1 Nat.two_pos Nat.one_pos, .zeros .double 1 2 Nat.one_pos Nat.two_pos]⟩,
    .initial, .initial, ()⟩

/-- It overwrites nothing but that matrix. -/
theorem onlyOwn_scribbling : scribbling.OnlyOwn := by
  intro r q hne w m hm
  show (w.store.put r _).get? q = some m
  rw [Store.get?_put, if_neg (Ne.symm hne)]
  exact hm

/-- With the width `1e-4` this objective is evaluated at four points for a gradient and at nine for
a Hessian, at the origin, which stays as it is. With the width `1e-200` the Hessian is refused after
three evaluations; a negative width and a row are refused at once. -/
theorem evaluations_of_width_scribbling :
    GradientEvaluates scribbling 1e-4 (.matrix 0) planeWorld
      (pointsAt (planeWorld.store.get 0) 1e-4 (gradientMoves 2)) none ∧
    HessianEvaluates scribbling 1e-4 (.matrix 0) planeWorld
      (pointsAt (planeWorld.store.get 0) 1e-4 (hessianMoves 2)) none ∧
    (gradientMoves 2).length = 4 ∧ (hessianMoves 2).length = 9 ∧
    (hessian scribbling (Width.ofScalar 1e-4) (.matrix 0)).Leaves (.matrix 0) ∧
    HessianEvaluates scribbling 1e-200 (.matrix 0) planeWorld
      (pointsAt (planeWorld.store.get 0) 1e-200 ((hessianMoves 2).take 3)) (some .divisionByZero) ∧
    HessianEvaluates scribbling (-1.0) (.matrix 0) planeWorld [] (some .widthSign) ∧
    HessianEvaluates scribbling 1e-4 (.matrix 1) planeWorld [] (some (.pointShape (1, 2))) := by
  have hgrows (r : Ref) (w : World Float Unit) : w.store.size ≤ (scribbling r w).2.store.size :=
    (Store.size_put w.store r _).ge
  obtain ⟨-, haccepted, hown, hcount⟩ :=
    evaluations_of_width 1e-4 (f := scribbling) (fun _ _ => rfl) hgrows
  obtain ⟨-, hlost, -⟩ := evaluations_of_width 1e-200 (f := scribbling) (fun _ _ => rfl) hgrows
  obtain ⟨hnegative, -⟩ := evaluations_of_width (-1.0) (f := scribbling) (fun _ _ => rfl) hgrows
  obtain ⟨-, hcolumn⟩ := haccepted (by decide +kernel) 0 planeWorld _ rfl
  obtain ⟨hrow, -⟩ := haccepted (by decide +kernel) 1 planeWorld _ rfl
  obtain ⟨-, hcolumn'⟩ := hlost (by decide +kernel) 0 planeWorld _ rfl
  obtain ⟨hgradient, hhessian, -⟩ := hcolumn rfl
  obtain ⟨-, -, hrefused⟩ := hcolumn' rfl
  have hkept : hessianFault? 1e-4 = none := Option.isNone_iff_eq_none.mp (by decide +kernel)
  have hdivides : hessianFault? 1e-200 = some .divisionByZero := by
    have hx : Binary.ofFloat? 1e-200 = some ⟨false, 6894565328877484, -717⟩ := by decide +kernel
    rw [hessianFault?, hx]
    exact if_pos (by decide +kernel)
  refine ⟨hgradient.1, (hhessian hkept).1, (hcount 2).1, (hcount 2).2.2.1,
    (hown onlyOwn_scribbling _ _).2, hrefused _ hdivides, ((hnegative (by decide +kernel)).2 _ _).2,
    (hrow rfl).2.2⟩

/-- **A Hessian that is not evaluated to the end**: the width `1e-200` is accepted, the point is a
column with two rows, and the objective always returns one, but there is no Hessian, and of nine
evaluations three are made. -/
theorem hessian_stops_at_lost_square :
    Scalar.le (1e-200 : Float) Scalar.zero = false ∧ (planeWorld.store.get 0).isVector = true ∧
      (∀ r w, flat r w = (.ok 1.0, w)) ∧
      (faultOf? (hessian flat.logged (Width.ofScalar 1e-200) (.matrix 0)
        (planeWorld.logging [])).1).map Fault.kind = some .zeroDivision ∧
      (hessian flat.logged (Width.ofScalar 1e-200) (.matrix 0)
        (planeWorld.logging [])).2.caller.2.length = 3 ∧
      2 * (planeWorld.store.get 0).rows ^ 2 + 1 = 9 := by
  refine ⟨by decide +kernel, rfl, fun _ _ => rfl, ?_, ?_, rfl⟩
  · decide +kernel
  · decide +kernel

end Differences

end NewtonRaphson
