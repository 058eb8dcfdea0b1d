import NewtonRaphson.World

/-! # What actions return and what they leave alone

Two readings of an action. The first takes a composed action apart: it returns a value exactly if
its parts do, one after the other (`Action.bind_eq_ok_iff`). The second says which matrices an
action does not touch:

* **`World.held w x`** — what the value `x` holds in the world `w`, if it is a matrix.
* **`Action.Leaves a x`** — whatever `x` holds before `a`, it holds after `a`, also if `a` is
  refused.

Both are closed under composition, so they are proved of the smallest actions and read off the
rest. -/

namespace NewtonRaphson

variable {S E α β : Type}

/-- What a value holds in a world: the matrix of its reference, nothing if it is plain. -/
def World.held (w : World S E) : Value → Option (DenseMatrix S)
  | .matrix r => w.store.get? r
  | .plain _ => none

@[simp] theorem World.held_matrix (w : World S E) (r : Ref) :
    w.held (.matrix r) = w.store.get? r := rfl

@[simp] theorem World.held_plain (w : World S E) (d : Datum) : w.held (.plain d) = none := rfl

/-- The matrix that a reference reads as is the one it holds. -/
theorem Store.get_of_get? [Scalar S] {s : Store S} {r : Ref} {m : DenseMatrix S}
    (h : s.get? r = some m) : s.get r = m := by
  rw [Store.get, h, Option.getD_some]

/-- A reference in the store holds the matrix it reads as. -/
theorem Store.get?_of_lt [Scalar S] {s : Store S} {r : Ref} (h : r < s.size) :
    s.get? r = some (s.get r) := by
  have hr : s.get? r = some s.cells[r] := Array.getElem?_eq_getElem h
  rw [hr, Store.get_of_get? hr]

/-- Only references in the store hold a matrix. -/
theorem Store.lt_size_of_get? {s : Store S} {r : Ref} {m : DenseMatrix S}
    (h : s.get? r = some m) : r < s.size := by
  obtain ⟨hr, -⟩ := Array.getElem?_eq_some_iff.mp h
  exact hr

/-- A matrix that was added is at the reference that was next. -/
theorem Store.get?_add_size (s : Store S) (m : DenseMatrix S) : (s.add m).get? s.size = some m := by
  rw [Store.get?_add, if_pos rfl]

/-- The references before it hold what they held. -/
theorem Store.get?_add_of_lt {s : Store S} {r : Ref} (h : r < s.size) (m : DenseMatrix S) :
    (s.add m).get? r = s.get? r := by
  rw [Store.get?_add, if_neg (Nat.ne_of_lt h)]

namespace Action

/-! ## (1) Taking composed actions apart -/

/-- After an action that returns, its continuation runs in the world it left. -/
theorem bind_of_ok {x : Action S E α} {f : α → Action S E β} {w w₁ : World S E} {a : α}
    (h : x w = (.ok a, w₁)) : (x >>= f) w = f a w₁ := by
  rw [bind_apply, h]

/-- After an action that is refused, nothing runs any more. -/
theorem bind_of_error {x : Action S E α} {f : α → Action S E β} {w w₁ : World S E} {e : Fault}
    (h : x w = (.error e, w₁)) : (x >>= f) w = (.error e, w₁) := by
  rw [bind_apply, h]

/-- Replacing the value of an action changes neither a fault nor the world. -/
theorem map_apply (f : α → β) (x : Action S E α) (w : World S E) :
    (f <$> x) w = (f <$> (x w).1, (x w).2) := by
  rcases h : x w with ⟨_ | _, _⟩
  · exact bind_of_error h
  · exact bind_of_ok h

/-- A composed action returns a value exactly if both parts return one. -/
theorem bind_eq_ok_iff {x : Action S E α} {f : α → Action S E β} {w w' : World S E} {b : β} :
    (x >>= f) w = (.ok b, w') ↔ ∃ a w₁, x w = (.ok a, w₁) ∧ f a w₁ = (.ok b, w') := by
  constructor
  · intro h
    rcases hx : x w with ⟨e | a, w₁⟩
    · rw [bind_of_error hx] at h
      cases h
    · rw [bind_of_ok hx] at h
      exact ⟨a, w₁, rfl, h⟩
  · rintro ⟨a, w₁, hx, hf⟩
    rw [bind_of_ok hx, hf]

/-- What an action returned is known once it is known which value it returned. -/
theorem eq_ok_of_toOption {out : Except Fault α} {a : α} (h : out.toOption = some a) :
    out = .ok a := by
  cases out with
  | ok b => exact congrArg Except.ok (Option.some.inj h)
  | error e => cases h

/-- An action whose result has a known property returned a result. -/
theorem exists_eq_of_map_eq_some {out : Except Fault (Option α) × World S E} {f : α → β} {b : β}
    (h : out.1.toOption.join.map f = some b) : ∃ a, out = (.ok (some a), out.2) ∧ f a = b := by
  obtain ⟨a, ha, hf⟩ := Option.map_eq_some_iff.mp h
  have hout : out.1 = .ok (some a) := eq_ok_of_toOption (Option.join_eq_some_iff.mp ha)
  exact ⟨a, by rw [← hout], hf⟩

/-! ## (2) What an action leaves alone -/

/-- An action **leaves** a value alone: the matrix it holds before, it holds after, however the
action ends. -/
def Leaves (a : Action S E α) (x : Value) : Prop :=
  ∀ w m, w.held x = some m → (a w).2.held x = some m

/-- An action that leaves a matrix alone, seen from the world it came to. -/
theorem Leaves.held_of_eq {a : Action S E α} {x : Value} (ha : a.Leaves x) {w w' : World S E}
    {out : Except Fault α} {m : DenseMatrix S} (h : a w = (out, w')) (hm : w.held x = some m) :
    w'.held x = some m := by
  have hw := ha w m hm
  rwa [h] at hw

theorem leaves_pure (a : α) (x : Value) : (pure a : Action S E α).Leaves x := fun _ _ hm => hm

theorem leaves_fail (e : Fault) (x : Value) : (fail e : Action S E α).Leaves x := fun _ _ hm => hm

theorem leaves_read [Scalar S] (r : Ref) (x : Value) : (read r : Action S E _).Leaves x :=
  fun _ _ hm => hm

/-- Two actions that leave a matrix alone do so one after the other. -/
theorem Leaves.bind {a : Action S E α} {f : α → Action S E β} {x : Value} (ha : a.Leaves x)
    (hf : ∀ v, (f v).Leaves x) : (a >>= f).Leaves x := by
  intro w m hm
  rcases h : a w with ⟨e | v, w₁⟩
  · rw [bind_of_error h]
    exact ha.held_of_eq h hm
  · rw [bind_of_ok h]
    exact hf v w₁ m (ha.held_of_eq h hm)

/-- A matrix that is added gets a new reference, so every old one is left alone. -/
theorem leaves_add (m : DenseMatrix S) (x : Value) : (add m : Action S E Ref).Leaves x := by
  intro w n hn
  cases x with
  | matrix r =>
    have hr : r < w.store.size := Store.lt_size_of_get? hn
    show (w.store.add m).get? r = some n
    rw [Store.get?_add_of_lt hr]
    exact hn
  | plain d => exact hn

end Action

end NewtonRaphson
