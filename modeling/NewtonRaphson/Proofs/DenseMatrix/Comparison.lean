import NewtonRaphson.Operand
import NewtonRaphson.Proofs.DenseMatrix.Representable
import NewtonRaphson.Proofs.Double.Sums

/-! # Equality and closeness of matrices

Matrices of either precision are compared entry by entry. What is shown of equality and closeness
holds of each pair of entries, with infinities and the undefined value among them.

* **`DenseMatrix.equal_comm`**, **`DenseMatrix.equal_trans`**, **`DenseMatrix.equal_self_iff`** —
  equality is symmetric and transitive, and a matrix equals itself unless an entry is undefined.
* **`DenseMatrix.close_zero_iff`** — without tolerance only equal matrices are close.
* **`DenseMatrix.close_mono`** — close matrices stay close when a tolerance is raised.
* **`DenseMatrix.close_comm`** — without relative tolerance closeness is symmetric, as far as both
  precisions round the tolerance to the same number. -/

namespace NewtonRaphson

open Float.Model (UnpackedFloat Format)
open Float.Model.UnpackedFloat

namespace DenseMatrix

/-! ## (1) Entry by entry -/

section Agree

variable {S : Type} {test : S → S → Bool} {a b c : DenseMatrix S}

/-- Matrices **agree** if they have one shape and all their entries do. -/
theorem agree_eq_true_iff : agree test a b = true ↔ ∃ h : a.rows = b.rows ∧ a.cols = b.cols,
    ∀ i j, test (a.grid.get i j) (b.grid.get (i.cast h.1) (j.cast h.2)) = true := by
  unfold agree
  by_cases hshape : a.rows = b.rows ∧ a.cols = b.cols
  · rw [dif_pos hshape, Grid.all_eq_true]
    simp only [id, Grid.get_zipWith, gridOf, Grid.get_cast]
    constructor
    · exact fun h => ⟨hshape, h⟩
    · rintro ⟨_, h⟩
      exact h
  · rw [dif_neg hshape]
    refine iff_of_false Bool.false_ne_true ?_
    rintro ⟨h, -⟩
    exact hshape h

/-- What pairs of entries imply carries over to matrices. -/
theorem agree_imp {test' : S → S → Bool} (h : agree test a b = true)
    (himp : ∀ i j k l, test (a.grid.get i j) (b.grid.get k l) = true →
      test' (a.grid.get i j) (b.grid.get k l) = true) : agree test' a b = true := by
  obtain ⟨hshape, hentries⟩ := agree_eq_true_iff.mp h
  exact agree_eq_true_iff.mpr ⟨hshape, fun i j => himp i j _ _ (hentries i j)⟩

/-- The other way round. -/
theorem agree_swap {test' : S → S → Bool} (h : agree test a b = true)
    (hswap : ∀ x y, test x y = true → test' y x = true) : agree test' b a = true := by
  obtain ⟨hshape, hentries⟩ := agree_eq_true_iff.mp h
  refine agree_eq_true_iff.mpr ⟨⟨hshape.1.symm, hshape.2.symm⟩, fun i j => hswap _ _ ?_⟩
  exact hentries (i.cast hshape.1.symm) (j.cast hshape.2.symm)

/-- By way of a third matrix. -/
theorem agree_trans {test' test'' : S → S → Bool} (hab : agree test a b = true)
    (hbc : agree test' b c = true) (htrans : ∀ x y z,
      test x y = true → test' y z = true → test'' x z = true) : agree test'' a c = true := by
  obtain ⟨hshape, hentries⟩ := agree_eq_true_iff.mp hab
  obtain ⟨hshape', hentries'⟩ := agree_eq_true_iff.mp hbc
  exact agree_eq_true_iff.mpr ⟨⟨hshape.1.trans hshape'.1, hshape.2.trans hshape'.2⟩, fun i j =>
    htrans _ _ _ (hentries i j) (hentries' (i.cast hshape.1) (j.cast hshape.2))⟩

end Agree

/-! ## (2) Equality -/

variable {a b c : DenseMatrix Float}

/-- Matrices are equal if they have one shape and equal numbers in each place. -/
theorem equal_iff : a.equal b = true ↔ ∃ h : a.rows = b.rows ∧ a.cols = b.cols,
    ∀ i j, Scalar.eq (a.grid.get i j) (b.grid.get (i.cast h.1) (j.cast h.2)) = true :=
  agree_eq_true_iff

/-- **Equality is symmetric.** -/
theorem equal_comm (a b : DenseMatrix Float) : a.equal b = b.equal a := by
  rw [Bool.eq_iff_iff]
  exact ⟨fun h => agree_swap h fun _ _ => Double.eq_swap,
    fun h => agree_swap h fun _ _ => Double.eq_swap⟩

/-- **Equality is transitive.** -/
theorem equal_trans (hab : a.equal b = true) (hbc : b.equal c = true) : a.equal c = true :=
  agree_trans hab hbc fun _ _ _ => Double.eq_trans

/-- **A matrix equals itself** unless one of its entries is undefined. -/
theorem equal_self_iff : a.equal a = true ↔ ∀ i j, (a.grid.get i j).isNaN = false := by
  rw [equal_iff]
  constructor
  · rintro ⟨_, h⟩ i j
    exact Double.eq_self_iff.mp (h i j)
  · exact fun h => ⟨⟨rfl, rfl⟩, fun i j => Double.eq_self_iff.mpr (h i j)⟩

end DenseMatrix

/-- Operands are either equal or unequal. -/
theorem Operand.unequal_eq_not_equal (x y : Operand) : x.unequal y = !x.equal y := by
  cases x <;> cases y <;> rfl

/-! ## (3) What a tolerance allows -/

namespace DenseMatrix

/-- What the tolerances **allow** a number to differ from `y`, as it is computed in a precision. -/
def allowance {S : Type} [Scalar S] (q : Precision) (atol rtol y : S) : S :=
  Scalar.add q (Scalar.round q atol) (Scalar.mul q (Scalar.round q rtol) (Scalar.abs y))

/-- Numbers are close if the second is finite and they differ by no more than is allowed, or if they
are equal. -/
theorem closeEntry_eq_true_iff {S : Type} [Scalar S] {p q : Precision} {atol rtol x y : S} :
    closeEntry p q atol rtol x y = true ↔
      Scalar.le (Scalar.abs (Scalar.sub (p.join q) x y)) (allowance q atol rtol y) = true ∧
        Scalar.isFinite y = true ∨ Scalar.eq x y = true := by
  rw [closeEntry, Bool.or_eq_true, Bool.and_eq_true]
  rfl

/-- Matrices are close if they have one shape and close numbers in each place. -/
theorem close_iff {a b : DenseMatrix Float} {atol rtol : Float} :
    a.close atol rtol b = true ↔ ∃ h : a.rows = b.rows ∧ a.cols = b.cols, ∀ i j,
      Scalar.le (Scalar.abs (Scalar.sub (a.precision.join b.precision) (a.grid.get i j)
          (b.grid.get (i.cast h.1) (j.cast h.2))))
        (allowance b.precision atol rtol (b.grid.get (i.cast h.1) (j.cast h.2))) = true ∧
      Scalar.isFinite (b.grid.get (i.cast h.1) (j.cast h.2)) = true ∨
      Scalar.eq (a.grid.get i j) (b.grid.get (i.cast h.1) (j.cast h.2)) = true := by
  rw [close, agree_eq_true_iff]
  simp only [closeEntry_eq_true_iff]

/-- Equal matrices are close, whatever the tolerances. -/
theorem close_of_equal {a b : DenseMatrix Float} (h : a.equal b = true) (atol rtol : Float) :
    a.close atol rtol b = true :=
  agree_imp h fun _ _ _ _ hequal => closeEntry_eq_true_iff.mpr (.inr hequal)

end DenseMatrix

namespace Double

variable {x y t : Float} {a b : Binary} {p q : Precision}

/-- A sum with zero is the other number, or zero. -/
theorem add_zero_cases (x : Float) : x + Scalar.zero = x ∨ x + Scalar.zero = Scalar.zero := by
  have hzero : parts Scalar.zero = .zero .positive := rfl
  have hsum := parts_add x Scalar.zero
  rw [hzero] at hsum
  have hkept := unpack_pack_parts x
  rcases hx : parts x with s | _ | s | ⟨s, m, e, hm⟩ <;> rw [hx] at hsum hkept
  case zero =>
    -- only the negative zero is not left as it is
    refine .inr (eq_of_parts (hsum.trans ?_))
    cases s <;> exact unpack_pack_zero .positive
  all_goals exact .inl (eq_of_parts (hsum.trans (hkept.trans hx.symm)))

/-- Zero times the size of a number is zero. -/
theorem zero_mul_abs (hy : y.isFinite = true) : Scalar.zero * y.abs = Scalar.zero := by
  have hfinite : (parts y).isFinite = true := hy
  have hzero : parts Scalar.zero = .zero .positive := rfl
  refine eq_of_parts ?_
  rw [parts_mul, parts_abs, hzero]
  rcases hparts : parts y with s | _ | s | ⟨s, m, e, hm⟩ <;> rw [hparts] at hfinite
  · cases hfinite
  · cases hfinite
  · exact unpack_pack_zero .positive
  · exact unpack_pack_zero .positive

/-- **Without a relative tolerance** as much is allowed as the tolerance is rounded to. -/
theorem allowance_zero (q : Precision) (atol : Float) (hy : y.isFinite = true) :
    DenseMatrix.allowance q atol Scalar.zero y = q.nearest atol + Scalar.zero := by
  have hzero : q.nearest Scalar.zero = Scalar.zero :=
    Precision.nearest_of_represents q.represents_zero
  show q.nearest (q.nearest atol + q.nearest (q.nearest Scalar.zero * y.abs)) = _
  rw [hzero, zero_mul_abs hy, hzero]
  rcases add_zero_cases (q.nearest atol) with hsum | hsum <;> rw [hsum]
  · exact q.nearest_nearest atol
  · exact hzero

/-- A greater factor makes no smaller product with the size of a number. -/
theorem mul_abs_le_mul_abs (ha : Binary.ofFloat? x = some a) (hb : Binary.ofFloat? t = some b)
    (h : Scalar.le x t = true) (hy : y.isFinite = true) :
    Scalar.le (x * y.abs) (t * y.abs) = true := by
  obtain ⟨c, hc⟩ := exists_ofFloat?_of_isFinite hy
  have hsize : Binary.ofFloat? y.abs = some { c with negative := false } := by
    rw [ofFloat?_abs, hc, Option.map_some]
  refine (isRounded_mul ha hsize).le_of_value_le (isRounded_mul hb hsize) ?_
  rw [Binary.value_times, Binary.value_times]
  refine mul_le_mul_of_nonneg_right ((le_iff_value ha hb).mp h) ?_
  rw [Binary.value_of_nonnegative rfl]
  exact Binary.magnitude_nonneg _

/-- **Greater tolerances** allow no less, if the relative one is rounded to a number. -/
theorem allowance_le_allowance {atol atol' rtol rtol' : Float}
    (hatol : Scalar.le Scalar.zero atol = true) (hatol' : Scalar.le atol atol' = true)
    (hrtol : Scalar.le Scalar.zero rtol = true) (hrtol' : Scalar.le rtol rtol' = true)
    (hfinite : (q.nearest rtol').isFinite = true) (hy : y.isFinite = true) :
    Scalar.le (DenseMatrix.allowance q atol rtol y) (DenseMatrix.allowance q atol' rtol' y) =
      true := by
  have hzero : Binary.ofFloat? Scalar.zero = some ⟨false, 0, -1074⟩ := by
    rw [ofFloat?_eq]
    rfl
  have hnotbelow : NotBelowZero (parts (q.nearest rtol)) :=
    notBelowZero_nearest q (scalar_zero_le_iff.mp hrtol)
  have hfactor : Scalar.le (q.nearest rtol) (q.nearest rtol') = true := nearest_le_nearest q hrtol'
  -- an infinite factor would make an undefined product with zero
  obtain ⟨b, hb⟩ := exists_ofFloat?_of_isFinite hfinite
  obtain ⟨a, ha⟩ := hnotbelow.exists_ofFloat? hfactor hb
  have hproduct : Scalar.le Scalar.zero (q.nearest rtol * y.abs) = true := by
    rw [← zero_mul_abs hy]
    exact mul_abs_le_mul_abs hzero ha (scalar_zero_le_iff.mpr hnotbelow) hy
  refine nearest_le_nearest q (add_le_add ?_ ?_ (nearest_le_nearest q hatol')
    (nearest_le_nearest q (mul_abs_le_mul_abs ha hb hfactor hy)))
  · exact notBelowZero_nearest q (scalar_zero_le_iff.mp hatol)
  · exact notBelowZero_nearest q (scalar_zero_le_iff.mp hproduct)

/-- Only a zero has a size that is at most zero. -/
theorem isZero_of_abs_le_zero (h : Scalar.le x.abs Scalar.zero = true) : IsZero x := by
  rw [scalar_le_eq, parts_abs] at h
  unfold IsZero
  generalize parts x = u at h ⊢
  rcases u with s | _ | s | ⟨s, m, e, hm⟩
  case zero => exact ⟨s, rfl⟩
  all_goals cases h

/-- What differs from a number by no more than a number is a number. -/
theorem exists_ofFloat?_of_le_sub (hb : Binary.ofFloat? y = some b) (ht : t.isFinite = true)
    (h : Scalar.le (p.nearest (x - y)).abs t = true) : ∃ a, Binary.ofFloat? x = some a := by
  rcases parts_cases x with hundefined | ⟨s, hinfinite⟩ | hnumber
  · have hdifference : parts (x - y) = .notANumber := by
      rw [parts_sub, hundefined]
      cases parts y <;> exact unpack_pack_notANumber
    rw [nearest_of_none p (by rw [ofFloat?_eq, hdifference]; rfl), scalar_le_eq, parts_abs,
      hdifference] at h
    cases h
  · have hdifference : parts (x - y) = .infinity s := by
      rw [ofFloat?_eq] at hb
      rw [parts_sub, hinfinite]
      generalize parts y = v at hb ⊢
      rcases v with t | _ | t | ⟨t, n, f, hn⟩
      case zero | finite => exact unpack_pack_infinity s
      all_goals cases hb
    rw [nearest_of_none p (by rw [ofFloat?_eq, hdifference]; rfl)] at h
    have hsize : parts (x - y).abs = .infinity .positive := by
      rw [parts_abs, hdifference]
      rfl
    have hbound : (parts t).isFinite = true := ht
    rw [eq_positive_infinity_of_le hsize h] at hbound
    cases hbound
  · exact hnumber

end Double

namespace Precision

/-- The precision of a comparison does not depend on the order. -/
theorem join_comm (p q : Precision) : p.join q = q.join p := by cases p <;> cases q <;> rfl

/-- It represents what either precision represents. -/
theorem Represents.join {p : Precision} {x : Float} (h : p.Represents x) (q : Precision) :
    (p.join q).Represents x := by
  cases p with
  | double => exact True.intro
  | single =>
    cases q with
    | single => exact h
    | double => exact True.intro

end Precision

/-! ## (4) Closeness -/

namespace DenseMatrix

variable {a b : DenseMatrix Float}

/-- Without tolerance only equal numbers are close. -/
theorem eq_of_closeEntry_zero {p q : Precision} {x y : Float} (hx : p.Represents x)
    (hy : q.Represents y) (h : closeEntry p q Scalar.zero Scalar.zero x y = true) :
    Scalar.eq x y = true := by
  rcases closeEntry_eq_true_iff.mp h with ⟨hle, hfinite⟩ | hequal
  · obtain ⟨b, hb⟩ := Double.exists_ofFloat?_of_isFinite hfinite
    -- nothing is allowed, so the difference is a zero, and no difference is lost
    have hnothing : q.nearest Scalar.zero + Scalar.zero = Scalar.zero := by
      rw [Precision.nearest_of_represents q.represents_zero]
      exact (Double.add_zero_cases _).elim id id
    rw [Double.allowance_zero q _ hfinite, hnothing] at hle
    obtain ⟨a, ha⟩ := Double.exists_ofFloat?_of_le_sub hb (by decide) hle
    rw [Double.eq_iff_value ha hb]
    exact Double.value_eq_of_isZero_nearest_sub (hx.join q) (p.join_comm q ▸ hy.join p) ha hb
      (Double.isZero_of_abs_le_zero hle)
  · exact hequal

/-- **Without tolerance** only equal matrices are close, if their entries belong to their
precisions. -/
theorem close_zero_iff (ha : a.Representable) (hb : b.Representable) :
    a.close Scalar.zero Scalar.zero b = true ↔ a.equal b = true :=
  ⟨fun h => agree_imp h fun i j k l => eq_of_closeEntry_zero (ha i j) (hb k l),
    fun h => close_of_equal h _ _⟩

/-- **Close matrices stay close** when a tolerance is raised, within the range of the second
precision. -/
theorem close_mono {atol atol' rtol rtol' : Float} (hatol : Scalar.le Scalar.zero atol = true)
    (hatol' : Scalar.le atol atol' = true) (hrtol : Scalar.le Scalar.zero rtol = true)
    (hrtol' : Scalar.le rtol rtol' = true) (hfinite : (b.precision.nearest rtol').isFinite = true)
    (h : a.close atol rtol b = true) : a.close atol' rtol' b = true := by
  refine agree_imp h fun _ _ _ _ hclose => closeEntry_eq_true_iff.mpr ?_
  refine (closeEntry_eq_true_iff.mp hclose).imp_left fun ⟨hle, hy⟩ => ⟨?_, hy⟩
  exact TransitiveScalar.le_trans hle
    (Double.allowance_le_allowance hatol hatol' hrtol hrtol' hfinite hy)

/-- Without a relative tolerance numbers are close to each other, if both precisions round the
tolerance alike. -/
theorem closeEntry_swap {p q : Precision} {atol x y : Float}
    (hsame : p.nearest atol = q.nearest atol) (hfinite : (p.nearest atol).isFinite = true)
    (h : closeEntry p q atol Scalar.zero x y = true) :
    closeEntry q p atol Scalar.zero y x = true := by
  refine closeEntry_eq_true_iff.mpr ?_
  rcases closeEntry_eq_true_iff.mp h with ⟨hle, hy⟩ | hequal
  · -- as much is allowed of either number, and so the first one is finite too
    rw [Double.allowance_zero q atol hy] at hle
    have hbound : (q.nearest atol + Scalar.zero).isFinite = true := by
      rcases Double.add_zero_cases (q.nearest atol) with hsum | hsum <;> rw [hsum]
      · exact hsame ▸ hfinite
      · decide
    obtain ⟨b, hb⟩ := Double.exists_ofFloat?_of_isFinite hy
    obtain ⟨a, ha⟩ := Double.exists_ofFloat?_of_le_sub hb hbound hle
    have hx : x.isFinite = true := Double.isFinite_of_ofFloat? ha
    refine .inl ⟨?_, hx⟩
    have hdifference : ((p.join q).nearest (x - y)).abs = ((p.join q).nearest (y - x)).abs :=
      Double.abs_nearest_congr _ (Double.abs_sub_swap ha hb)
    rw [Double.allowance_zero p atol hx, hsame, q.join_comm p]
    exact (congrArg (Scalar.le · _) hdifference).symm.trans hle
  · exact .inr (Double.eq_swap hequal)

/-- **Without a relative tolerance** closeness is symmetric, if both precisions round the tolerance
alike. -/
theorem close_comm {atol : Float} (hsame : a.precision.nearest atol = b.precision.nearest atol)
    (hfinite : (a.precision.nearest atol).isFinite = true) :
    a.close atol Scalar.zero b = b.close atol Scalar.zero a := by
  rw [Bool.eq_iff_iff]
  exact ⟨fun h => agree_swap h fun _ _ => closeEntry_swap hsame hfinite,
    fun h => agree_swap h fun _ _ => closeEntry_swap hsame.symm (hsame ▸ hfinite)⟩

end DenseMatrix

/-- Asked of an operand that is a matrix, **closeness is that of the matrices**, under the
tolerances that the data stand for. -/
theorem Operand.close_matrix {a b : DenseMatrix Float} {datol drtol : Datum} {atol rtol : Float}
    (hatol : datol.toFactor = .ok atol) (hrtol : drtol.toFactor = .ok rtol) :
    Operand.close a datol drtol (.matrix b) = .ok (a.close atol rtol b) := by
  rw [close]
  split
  · rw [hatol, hrtol]
    rfl
  · rename_i hshape
    have hsize : ¬(a.rows = b.rows ∧ a.cols = b.cols) := fun h => hshape (Prod.ext h.1 h.2)
    rw [DenseMatrix.close, DenseMatrix.agree, dif_neg hsize]

namespace DenseMatrix

/-- **Equality and closeness belong together**, for matrices of either precision.
* Matrices are equal if they have one shape and equal numbers in each place. Equality is symmetric
  and transitive, a matrix equals itself unless one of its entries is undefined, and matrices are
  unequal exactly if they are not equal.
* They are close, under the tolerances that the data stand for, if they have one shape and in each
  place either a finite second number, from which the first one differs by no more than is allowed,
  or equal numbers.
* Equal matrices are close, whatever the tolerances, and with entries that belong to their
  precisions only equal matrices are close without tolerance.
* Close matrices stay close when tolerances that are not below zero are raised, as long as the
  relative one is in the range of the second precision, in which it is computed how much is allowed.
* Without a relative tolerance it does not matter which matrix is asked about the other, as long as
  both precisions round the tolerance to the same number. -/
theorem equality_and_closeness (a b c : DenseMatrix Float) :
    ((a.equal b = true ↔ ∃ h : a.rows = b.rows ∧ a.cols = b.cols,
        ∀ i j, Scalar.eq (a.grid.get i j) (b.grid.get (i.cast h.1) (j.cast h.2)) = true) ∧
      a.equal b = b.equal a ∧ (a.equal b = true → b.equal c = true → a.equal c = true) ∧
      (a.equal a = true ↔ ∀ i j, (a.grid.get i j).isNaN = false) ∧
      (Operand.matrix a).unequal (.matrix b) = !(Operand.matrix a).equal (.matrix b)) ∧
    (∀ datol drtol atol rtol, datol.toFactor = .ok atol → drtol.toFactor = .ok rtol →
      Operand.close a datol drtol (.matrix b) = .ok (a.close atol rtol b) ∧
      (a.close atol rtol b = true ↔ ∃ h : a.rows = b.rows ∧ a.cols = b.cols, ∀ i j,
        Scalar.le (Scalar.abs (Scalar.sub (a.precision.join b.precision) (a.grid.get i j)
            (b.grid.get (i.cast h.1) (j.cast h.2))))
          (allowance b.precision atol rtol (b.grid.get (i.cast h.1) (j.cast h.2))) = true ∧
        Scalar.isFinite (b.grid.get (i.cast h.1) (j.cast h.2)) = true ∨
        Scalar.eq (a.grid.get i j) (b.grid.get (i.cast h.1) (j.cast h.2)) = true)) ∧
    (a.equal b = true → ∀ atol rtol, a.close atol rtol b = true) ∧
    (a.Representable → b.Representable →
      (a.close Scalar.zero Scalar.zero b = true ↔ a.equal b = true)) ∧
    (∀ atol atol' rtol rtol', Scalar.le Scalar.zero atol = true → Scalar.le atol atol' = true →
      Scalar.le Scalar.zero rtol = true → Scalar.le rtol rtol' = true →
      (b.precision.nearest rtol').isFinite = true → a.close atol rtol b = true →
      a.close atol' rtol' b = true) ∧
    (∀ atol, a.precision.nearest atol = b.precision.nearest atol →
      (a.precision.nearest atol).isFinite = true →
      a.close atol Scalar.zero b = b.close atol Scalar.zero a) := by
  refine ⟨⟨equal_iff, equal_comm a b, equal_trans, equal_self_iff,
    Operand.unequal_eq_not_equal _ _⟩, ?_, close_of_equal, close_zero_iff,
    fun _ _ _ _ => close_mono, fun _ => close_comm⟩
  intro datol drtol atol rtol hatol hrtol
  exact ⟨Operand.close_matrix hatol hrtol, close_iff⟩

/-- The matrix with the rows `x, 0` and `∞, -1` in single precision. -/
def fourSingles (x : Float) : DenseMatrix Float :=
  ofFn .single Nat.two_pos Nat.two_pos fun (i j : Fin 2) =>
    if i.val = 0 then if j.val = 0 then x else 0.0 else if j.val = 0 then 1.0 / 0.0 else -1.0

/-- The matrix with the rows `x, -0` and `∞, -1` in double precision. -/
def fourDoubles (x : Float) : DenseMatrix Float :=
  ofFn .double Nat.two_pos Nat.two_pos fun (i j : Fin 2) =>
    if i.val = 0 then if j.val = 0 then x else -0.0 else if j.val = 0 then 1.0 / 0.0 else -1.0

/-- Singles and doubles of the same values are equal in either order and close under all tolerances,
zeros of either sign and infinities included. An undefined entry differs from itself. Where an entry
differs by an eighth, the matrices are close under that tolerance and every greater one, in either
order. -/
theorem equality_and_closeness_of_mixed :
    (fourDoubles 0.5).equal (fourSingles 0.5) = true ∧
      (fourSingles 0.5).equal (fourSingles 0.5) = true ∧
      (fourSingles (0.0 / 0.0)).equal (fourSingles (0.0 / 0.0)) = false ∧
      Operand.close (fourSingles 0.5) (.bool true) (.real 0.25) (.matrix (fourDoubles 0.5)) =
      .ok true ∧ (fourSingles 0.5).close Scalar.zero Scalar.zero (fourDoubles 0.5) = true ∧
      (fourSingles 0.5).close 0.25 0.125 (fourDoubles 0.625) = true ∧
      (fourDoubles 0.625).close 0.125 Scalar.zero (fourSingles 0.5) = true := by
  have hequal : (fourSingles 0.5).equal (fourDoubles 0.5) = true := by decide +kernel
  have heighth : (fourSingles 0.5).close 0.125 Scalar.zero (fourDoubles 0.625) = true := by
    decide +kernel
  have hsingles (x : Float) : (fourSingles x).Representable := (faithful_ofFn _ _ _ _).representable
  have hdoubles (x : Float) : (fourDoubles x).Representable := (faithful_ofFn _ _ _ _).representable
  obtain ⟨⟨-, hsymm, htrans, -, -⟩, hasked, hclose, hzero, -, -⟩ :=
    equality_and_closeness (fourSingles 0.5) (fourDoubles 0.5) (fourSingles 0.5)
  obtain ⟨⟨-, -, -, hself, -⟩, -⟩ :=
    equality_and_closeness (fourSingles (0.0 / 0.0)) (fourDoubles 0.5) (fourSingles 0.5)
  obtain ⟨-, -, -, -, hraised, hswap⟩ :=
    equality_and_closeness (fourSingles 0.5) (fourDoubles 0.625) (fourSingles 0.5)
  have hreverse : (fourDoubles 0.5).equal (fourSingles 0.5) = true := hsymm ▸ hequal
  refine ⟨hreverse, htrans hequal hreverse, ?_, ?_, ?_, ?_, ?_⟩
  · -- the first entry is undefined
    refine Bool.eq_false_iff.mpr fun h => ?_
    have hfirst : ((fourSingles (0.0 / 0.0)).grid.get (0 : Fin 2) (0 : Fin 2)).isNaN = true := by
      decide +kernel
    exact absurd (hself.mp h (0 : Fin 2) (0 : Fin 2)) (by rw [hfirst]; decide)
  · rw [(hasked (.bool true) (.real 0.25) 1.0 0.25 rfl rfl).1, hclose hequal]
  · exact (hzero (hsingles _) (hdoubles _)).mpr hequal
  · exact hraised 0.125 0.25 Scalar.zero 0.125 (by decide +kernel) (by decide +kernel)
      (by decide +kernel) (by decide +kernel) (by decide +kernel) heighth
  · rw [← hswap 0.125 (by decide +kernel) (by decide +kernel)]
    exact heighth

/-- The matrix of a single entry. -/
def oneEntry (p : Precision) (x : Float) : DenseMatrix Float :=
  ofFn p Nat.one_pos Nat.one_pos fun _ _ => x

/-- **A tolerance that the precisions round differently** makes closeness depend on the order: one
tenth is rounded up in single precision, in which it is computed how far a single may be away. -/
theorem close_of_mixed_ne :
    Scalar.le Scalar.zero (0.1 : Float) = true ∧ (0.1 : Float).isFinite = true ∧
      (Precision.single.nearest 0.1).isFinite = true ∧
      (oneEntry .single 0.1).close 0.1 Scalar.zero (oneEntry .double 0.0) = false ∧
      (oneEntry .double 0.0).close 0.1 Scalar.zero (oneEntry .single 0.1) = true := by
  decide +kernel

end DenseMatrix

end NewtonRaphson
