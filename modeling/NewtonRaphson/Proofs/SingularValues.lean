import NewtonRaphson.Proofs.Double.Rounding
import NewtonRaphson.SingularValues.Jacobi

/-! # Singular values are not below zero

However singular values are computed, they are lengths. The rank check compares the smallest with a
multiple of the largest, and both are among them.

* **`NonnegativeSingularValues S`** — the law: no singular value is below zero; whether each is a
  number is left open, as lengths may overflow.
* **`smallest_eq_get`**, **`largest_eq_get`** — the smallest and the largest of several scalars are
  among them.
* **`smallest_map`**, **`largest_map`** — they go along with every map that keeps the order.
* **`Double.NeverBelowZero`** — the parts of a double that is undefined or not below zero.
* **`Jacobi.neverBelowZero_length`** — the length of a column is such a double, whatever its entries
  are. -/

namespace NewtonRaphson

/-- **Nonnegative singular values**: none of them is below zero. -/
class NonnegativeSingularValues (S : Type) [SingularValues S] : Prop where
  not_lt_zero : ∀ (p : Precision) {n : Nat} (g : Grid S n n) (i : Fin n),
    Scalar.lt ((SingularValues.singularValues p g).get i) Scalar.zero = false

/-! ## (1) The smallest and the largest -/

section Choice

variable {α : Type} {n : Nat} (g : Fin n → α) (replaces : Fin n → α → Bool)

/-- A running choice ends with what it started with or with something it went past. -/
theorem foldl_choice (s : α) :
    Fin.foldl n (fun m i => if replaces i m then g i else m) s = s ∨
      ∃ i, Fin.foldl n (fun m i => if replaces i m then g i else m) s = g i := by
  induction n with
  | zero => exact .inl (Fin.foldl_zero _ _)
  | succ n ih =>
    rw [Fin.foldl_succ_last]
    split
    · exact .inr ⟨Fin.last n, rfl⟩
    · exact (ih (fun i => g i.castSucc) fun i => replaces i.castSucc).imp_right fun ⟨i, hi⟩ =>
        ⟨i.castSucc, hi⟩

end Choice

/-- A running choice goes along with a map that keeps what replaces what. -/
theorem foldl_choice_map {α β : Type} (f : α → β) (replaces : α → α → Bool)
    (replaces' : β → β → Bool) (h : ∀ x y, replaces' (f x) (f y) = replaces x y) {n : Nat}
    (g : Fin n → α) (s : α) :
    Fin.foldl n (fun m i => if replaces' (f (g i)) m then f (g i) else m) (f s) =
      f (Fin.foldl n (fun m i => if replaces (g i) m then g i else m) s) := by
  induction n with
  | zero => rw [Fin.foldl_zero, Fin.foldl_zero]
  | succ n ih =>
    rw [Fin.foldl_succ_last, Fin.foldl_succ_last, ih fun i => g i.castSucc, h]
    exact (apply_ite f _ _ _).symm

variable {S : Type} [Scalar S] {n : Nat} (v : Vector S n) (hn : 0 < n)

theorem smallest_eq_get : ∃ i, smallest v hn = v.get i :=
  (foldl_choice v.get (fun i m => Scalar.lt (v.get i) m) _).elim (fun h => ⟨_, h⟩) id

theorem largest_eq_get : ∃ i, largest v hn = v.get i :=
  (foldl_choice v.get (fun i m => Scalar.lt m (v.get i)) _).elim (fun h => ⟨_, h⟩) id

section Map

variable {T : Type} [Scalar T] {f : S → T} (hf : ∀ x y, Scalar.lt (f x) (f y) = Scalar.lt x y)
include hf

/-- The smallest goes along with a map that keeps the order. -/
theorem smallest_map : smallest (v.map f) hn = f (smallest v hn) := by
  simp only [smallest, Vector.get_eq_getElem, Vector.getElem_map]
  exact foldl_choice_map f Scalar.lt Scalar.lt hf (fun i => v[i.val]) _

/-- So does the largest. -/
theorem largest_map : largest (v.map f) hn = f (largest v hn) := by
  simp only [largest, Vector.get_eq_getElem, Vector.getElem_map]
  exact foldl_choice_map f (fun x m => Scalar.lt m x) (fun x m => Scalar.lt m x) (fun x m => hf m x)
    (fun i => v[i.val]) _

end Map

/-! ## (2) Doubles that are never below zero -/

namespace Double

open Float.Model (UnpackedFloat Format)
open Float.Model.UnpackedFloat

/-- The parts of a double that is undefined or **not below zero**. -/
def NeverBelowZero (u : UnpackedFloat) : Prop := u = .notANumber ∨ NotBelowZero u

variable {u v : UnpackedFloat} {x : Float}

theorem NeverBelowZero.scalar_lt (h : NeverBelowZero (parts x)) :
    Scalar.lt x Scalar.zero = false := by
  rw [scalar_lt_eq]
  generalize parts x = w at h
  rcases h with rfl | h
  · rfl
  · cases h <;> rfl

/-- Putting parts together changes nothing about it. -/
theorem NeverBelowZero.pack (h : NeverBelowZero u) :
    NeverBelowZero (unpack Format.binary64 (UnpackedFloat.pack Format.binary64 u)) := by
  rcases h with rfl | h
  · exact .inl rfl
  · exact .inr h.pack

/-- Squares are never below zero. -/
theorem neverBelowZero_mul_self (spec : Format) (u : UnpackedFloat) :
    NeverBelowZero (mul spec u u) := by
  cases u with
  | notANumber => exact .inl rfl
  | infinity s => cases s <;> exact .inr .infinity
  | zero s => exact .inr (notBelowZero_mul_self spec rfl)
  | finite s m e hm => exact .inr (notBelowZero_mul_self spec rfl)

/-- So are their sums. -/
theorem NeverBelowZero.add (spec : Format) (hu : NeverBelowZero u) (hv : NeverBelowZero v) :
    NeverBelowZero (UnpackedFloat.add spec u v) := by
  rcases hu with rfl | hu
  · exact .inl rfl
  rcases hv with rfl | hv
  · cases u <;> exact .inl rfl
  · exact .inr (hu.add spec hv)

/-- So are the roots. -/
theorem NeverBelowZero.sqrt (spec : Format) (hu : NeverBelowZero u) :
    NeverBelowZero (UnpackedFloat.sqrt spec u) := by
  rcases hu with rfl | hu
  · exact .inl rfl
  · exact .inr (hu.sqrt spec)

/-- A product of two such values is one, too. -/
theorem NeverBelowZero.mul (spec : Format) (hu : NeverBelowZero u) (hv : NeverBelowZero v) :
    NeverBelowZero (UnpackedFloat.mul spec u v) := by
  rcases hu with rfl | hu
  · exact .inl rfl
  rcases hv with rfl | hv
  · cases u <;> exact .inl rfl
  cases hu with
  | zero s =>
    cases hv with
    | infinity => exact .inl rfl
    | zero t => exact .inr (.zero _)
    | finite n f hn => exact .inr (.zero _)
  | infinity =>
    cases hv with
    | zero t => exact .inl rfl
    | infinity => exact .inr .infinity
    | finite n f hn => exact .inr .infinity
  | finite m e hm =>
    cases hv with
    | zero t => exact .inr (.zero _)
    | infinity => exact .inr .infinity
    | finite n f hn => exact .inr (notBelowZero_roundWithAccuracy spec _ _ _)

/-- Rounding to a precision changes nothing about it either. -/
theorem neverBelowZero_nearest (p : Precision) (h : NeverBelowZero (parts x)) :
    NeverBelowZero (parts (p.nearest x)) := by
  rcases h with h | h
  · have hnone : p.nearest x = x := by
      cases p with
      | double => rfl
      | single =>
        have hx : Binary.ofFloat? x = none := by
          rw [ofFloat?_eq, h]
          rfl
        simp only [Precision.nearest, hx]
    rw [hnone]
    exact .inl h
  · exact .inr (notBelowZero_nearest p h)

end Double

/-! ## (3) Lengths of columns -/

namespace Jacobi

open Double

/-- The unit that a column is scaled by is a power of two. -/
theorem neverBelowZero_powerBelow (x : Float) : NeverBelowZero (parts (powerBelow x)) := by
  unfold powerBelow
  split
  · rename_i b hb
    split
    · exact .inr (scalar_zero_le_iff.mp (by decide +kernel))
    · rename_i hmantissa
      refine .inr (Unsigned.toFloat ⟨?_, nofun⟩)
      exact Nat.lt_of_le_of_lt (Nat.log2_self_le hmantissa) (isCanonical_of_ofFloat? hb).1.size
  · exact .inr (scalar_zero_le_iff.mp (by decide +kernel))

/-- **The length of a column** is never below zero. -/
theorem neverBelowZero_length {n : Nat} (v : Vector Float n) :
    NeverBelowZero (parts (length v)) := by
  refine ((neverBelowZero_powerBelow _).mul _ (NeverBelowZero.sqrt _ ?_).pack).pack
  rw [← Vector.foldl_toList]
  have hzero : NeverBelowZero (parts 0.0) := .inr (.zero .positive)
  exact List.foldlRecOn (motive := fun s => NeverBelowZero (parts s)) _ _ hzero fun s hs x _ =>
    (hs.add _ (neverBelowZero_mul_self _ _).pack).pack

end Jacobi

instance : NonnegativeSingularValues Float where
  not_lt_zero := by
    intro p n g i
    show Scalar.lt ((Jacobi.singularValues p g).get i) Scalar.zero = false
    unfold Jacobi.singularValues
    rw [Vector.get_eq_getElem, Vector.getElem_map]
    exact (Double.neverBelowZero_nearest p (Jacobi.neverBelowZero_length _)).scalar_lt

end NewtonRaphson
