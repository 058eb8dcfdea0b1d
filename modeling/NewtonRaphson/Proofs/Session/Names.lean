import NewtonRaphson.Proofs.Session.Runs

/-! # Names and the matrices they stand for

Commands know matrices by names only. What a command comes to is told here where its names are known
to stand for matrices that are there:

* **`Session.Holds w name r m`** — in the world `w` the name stands for the reference `r`, which
  holds `m`.
* **`Session.Replaces r m w w'`** — from `w` to `w'` the matrix of `r` was replaced by `m`, as every
  name of it shows, and nothing else that has a name was changed.
* **`Session.run_combine`**, **`Session.run_update`**, **`Session.run_assign`**,
  **`Session.run_setEntry`** — the operators, and the commands that overwrite a matrix.
* **`Session.twoNames`** — a world in which two names stand for one matrix. -/

namespace NewtonRaphson

namespace Session

variable {w : World Float Caller} {name other : String} {r q : Ref} {a m : DenseMatrix Float}

/-! ## (1) What a name holds -/

/-- A name **holds** a matrix: it stands for a reference, and the matrix of that is the one. -/
structure Holds (w : World Float Caller) (name : String) (r : Ref)
    (m : DenseMatrix Float) : Prop where
  lookup : w.caller.registers.lookup name = some r
  held : w.store.get? r = some m

theorem Holds.refOf_eq (h : Holds w name r m) : refOf name w = (.ok r, w) :=
  congrArg (·, w) (lookup_eq_ok_iff.mpr h.lookup)

theorem Holds.read_eq (h : Holds w name r m) : (Action.read r : SessionAction _) w = (.ok m, w) :=
  congrArg (fun m => (Except.ok m, w)) (Store.get_of_get? h.held)

theorem Holds.matrixOf_eq (h : Holds w name r m) : matrixOf name w = (.ok m, w) :=
  (Action.bind_of_ok h.refOf_eq).trans h.read_eq

theorem Holds.operandOf_eq (h : Holds w name r m) :
    operandOf (.register name) w = (.ok (.matrix m), w) :=
  Action.bind_of_ok h.matrixOf_eq

/-- A matrix that is delivered leaves those that are there. -/
theorem get?_delivered (h : w.store.get? q = some a) (target : Option String)
    (m : DenseMatrix Float) : (delivered target m w).store.get? q = some a := by
  rw [store_delivered, Store.get?_add_of_lt (Store.lt_size_of_get? h)]
  exact h

/-- A name that a matrix was delivered under holds it. -/
theorem holds_delivered (name : String) (m : DenseMatrix Float) (w : World Float Caller) :
    Holds (delivered (some name) m w) name w.store.size m where
  lookup := by rw [delivered, lookup_binding, if_pos rfl]
  held := by rw [store_delivered, Store.get?_add_size]

/-! ## (2) Replaced matrices -/

/-- The world in which a reference holds another matrix. -/
def replacing (r : Ref) (m : DenseMatrix Float) (w : World Float Caller) : World Float Caller :=
  { w with store := w.store.put r m }

/-- From `w` to `w'` the matrix of `r` was **replaced** by `m` and nothing else was changed, as the
names show: they stand for what they stood for, those of `r` hold `m`, and all others what they
held. -/
structure Replaces (r : Ref) (m : DenseMatrix Float) (w w' : World Float Caller) : Prop where
  seen : ∀ name, w.caller.registers.lookup name = some r → Holds w' name r m
  kept : ∀ name q n, q ≠ r → Holds w name q n → Holds w' name q n

/-- Replacing the matrix of a reference that holds one. -/
theorem replaces_replacing (hr : w.store.get? r = some a) (m : DenseMatrix Float) :
    Replaces r m w (replacing r m w) where
  seen name hname := by
    refine ⟨hname, ?_⟩
    rw [replacing, Store.get?_put, if_pos rfl, if_pos (Store.lt_size_of_get? hr)]
  kept name q n hq h := by
    refine ⟨h.lookup, ?_⟩
    rw [replacing, Store.get?_put, if_neg (Ne.symm hq)]
    exact h.held

/-- The outcome of an operation that replaces the matrix of a reference, if it is not refused. -/
def replaced (r : Ref) (w : World Float Caller) :
    Except Fault (DenseMatrix Float) → Except Fault Outcome × World Float Caller
  | .ok m => (.ok (.matrix m), replacing r m w)
  | .error cause => (.error cause, w)

/-- Overwriting the matrix of a name. -/
theorem Holds.overwrite_eq (h : Holds w name r a)
    (f : DenseMatrix Float → Except Fault (DenseMatrix Float)) :
    overwrite name f w = replaced r w (f a) := by
  unfold overwrite
  rw [Action.bind_of_ok h.refOf_eq, Action.bind_of_ok h.read_eq]
  cases f a <;> rfl

/-! ## (3) Commands -/

/-- The outcome of an operation that makes a new matrix, if it is not refused. -/
def made (target : Option String) (w : World Float Caller) :
    Except Fault (DenseMatrix Float) → Except Fault Outcome × World Float Caller
  | .ok m => (.ok (.matrix m), delivered target m w)
  | .error cause => (.error cause, w)

variable {right : Source} {b : Operand}

/-- An operator makes a new matrix of its operands. -/
theorem run_combine (fuel : Nat) (h : Holds w name r a) (hb : operandOf right w = (.ok b, w))
    (operator : Operator) (target : Option String) :
    run fuel (.combine operator target (.register name) right) w =
      made target w (operator.apply (.matrix a) b) := by
  rw [run, Action.bind_of_ok h.operandOf_eq, Action.bind_of_ok hb]
  cases operator.apply (.matrix a) b with
  | ok m => exact deliver_apply target m w
  | error cause => rfl

/-- An operator in place that overwrites replaces the matrix of its target. -/
theorem run_update (fuel : Nat) (h : Holds w name r a) (hb : operandOf right w = (.ok b, w))
    {operator : Operator} (hoverwrites : operator.overwrites = true) :
    run fuel (.update operator name right) w = replaced r w (operator.apply (.matrix a) b) := by
  rw [run, Action.bind_of_ok h.refOf_eq, Action.bind_of_ok hb, Action.bind_of_ok h.read_eq]
  cases operator.apply (.matrix a) b with
  | ok m =>
    rw [ofExcept_bind, if_pos hoverwrites]
    rfl
  | error cause => rfl

/-- An assignment replaces the matrix of its target. -/
theorem run_assign (fuel : Nat) (h : Holds w name r a) (hb : operandOf right w = (.ok b, w)) :
    run fuel (.assign name right) w = replaced r w (b.assignTo a) := by
  rw [run, Action.bind_of_ok hb]
  exact h.overwrite_eq b.assignTo

/-- Writing an entry replaces the matrix of the target. -/
theorem run_setEntry (fuel : Nat) (h : Holds w name r a) (key : Key) (value : Datum) :
    run fuel (.setEntry name key value) w = replaced r w (a.setEntry key value) := by
  rw [run]
  exact h.overwrite_eq (·.setEntry key value)

/-- Reading an entry changes nothing. -/
theorem run_getEntry (fuel : Nat) (h : Holds w name r a) (key : Key) :
    run fuel (.getEntry name key) w = ((a.getEntry key).map .number, w) := by
  rw [run, Action.bind_of_ok h.matrixOf_eq]
  cases a.getEntry key <;> rfl

/-- Exchanging rows and columns makes a new matrix. -/
theorem run_transpose (fuel : Nat) (h : Holds w name r a) (target : Option String) :
    run fuel (.transpose target name) w =
      (.ok (.matrix a.transpose), delivered target a.transpose w) := by
  rw [run, Action.bind_of_ok h.matrixOf_eq]
  exact deliver_apply target a.transpose w

/-! ## (4) One matrix under two names -/

/-- A column of two entries. -/
def oneTwo : DenseMatrix Float :=
  .ofFn .double Nat.two_pos Nat.one_pos fun i _ => if i.val = 0 then 1.0 else 2.0

/-- A world in which two names stand for it. -/
def twoNames : World Float Caller :=
  ⟨⟨#[oneTwo]⟩, .initial, .initial, (Caller.initial.bind "x" 0).bind "y" 0⟩

theorem holds_twoNames_x : Holds twoNames "x" 0 oneTwo := ⟨by decide, rfl⟩

theorem holds_twoNames_y : Holds twoNames "y" 0 oneTwo := ⟨by decide, rfl⟩

end Session

end NewtonRaphson
