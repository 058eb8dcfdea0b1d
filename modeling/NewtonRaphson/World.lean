import NewtonRaphson.Journal
import NewtonRaphson.SingularValues
import NewtonRaphson.Store

/-! # Actions

What a computation may touch: the store, the settings, the journal, and a state of the caller's own.
An action returns a value or a fault together with the world it leaves behind; what was done before
a fault stays done. -/

namespace NewtonRaphson

/-- The numeric **settings**. -/
structure Settings (S : Type) where
  /-- The precision of matrices that are built without naming one. -/
  precision : Precision
  /-- The multiple of `n · epsilon` below which a matrix with `n` rows counts as singular. -/
  factor : S

/-- The settings at the start. -/
def Settings.initial {S : Type} [Scalar S] : Settings S := ⟨.double, Scalar.one⟩

/-- The **world** of an action. -/
structure World (S E : Type) where
  /-- The matrices. -/
  store : Store S
  /-- The numeric settings. -/
  settings : Settings S
  /-- The loggers and what they wrote. -/
  journal : Journal S
  /-- The state of the caller's own. -/
  caller : E

/-- An **action**: it returns a value or a fault, and the world it leaves. -/
def Action (S E α : Type) : Type := World S E → Except Fault α × World S E

namespace Action

variable {S E α β : Type}

/-- The action that only returns a value. -/
protected def pure (a : α) : Action S E α := fun w => (.ok a, w)

/-- One action after another; a fault ends both. -/
protected def bind (x : Action S E α) (f : α → Action S E β) : Action S E β := fun w =>
  match x w with
  | (.ok a, w') => f a w'
  | (.error e, w') => (.error e, w')

instance : Monad (Action S E) where
  pure := Action.pure
  bind := Action.bind

/-- The action that is refused. -/
def fail (f : Fault) : Action S E α := fun w => (.error f, w)

/-- The result of a computation that touches nothing. -/
def ofExcept (x : Except Fault α) : Action S E α := fun w => (x, w)

instance : MonadLift (Except Fault) (Action S E) := ⟨ofExcept⟩

@[simp] theorem pure_apply (a : α) (w : World S E) : (pure a : Action S E α) w = (.ok a, w) := rfl

theorem bind_apply (x : Action S E α) (f : α → Action S E β) (w : World S E) :
    (x >>= f) w =
      match x w with
      | (.ok a, w') => f a w'
      | (.error e, w') => (.error e, w') := rfl

@[simp] theorem fail_apply (f : Fault) (w : World S E) :
    (fail f : Action S E α) w = (.error f, w) := rfl

@[simp] theorem ofExcept_apply (x : Except Fault α) (w : World S E) :
    (ofExcept x : Action S E α) w = (x, w) := rfl

/-- Returning a value after an action changes nothing. -/
theorem bind_pure_self (x : Action S E α) : (x >>= fun a => pure a) = x := by
  funext w
  rw [bind_apply]
  rcases x w with ⟨_ | _, _⟩ <;> rfl

/-- Actions in a row may be grouped at will. -/
theorem bind_bind {γ : Type} (x : Action S E α) (f : α → Action S E β) (g : β → Action S E γ) :
    (x >>= f >>= g) = x >>= fun a => f a >>= g := by
  funext w
  simp only [bind_apply]
  rcases x w with ⟨_ | _, _⟩ <;> rfl

instance : LawfulMonad (Action S E) :=
  LawfulMonad.mk' _ bind_pure_self (fun _ _ => rfl) bind_bind

/-! ### What actions may do -/

/-- The world as it is. -/
def look : Action S E (World S E) := fun w => (.ok w, w)

/-- Changes the world. -/
def change (f : World S E → World S E) : Action S E Unit := fun w => (.ok (), f w)

/-- The matrix of a reference. -/
def read [Scalar S] (r : Ref) : Action S E (DenseMatrix S) := fun w => (.ok (w.store.get r), w)

/-- Overwrites the matrix of a reference. -/
def write (r : Ref) (m : DenseMatrix S) : Action S E Unit :=
  change fun w => { w with store := w.store.put r m }

/-- Adds a matrix to the store. -/
def add (m : DenseMatrix S) : Action S E Ref := fun w =>
  (.ok w.store.size, { w with store := w.store.add m })

/-- Hands a record to the journal. -/
def record (logger : String) (level : Int) (message : Message S) : Action S E Unit :=
  change fun w => { w with journal := w.journal.emit ⟨logger, level, message⟩ }

/-- Runs an operation of the journal, which may be refused after having changed it. -/
def onJournal (f : Journal S → Except Fault α × Journal S) : Action S E α := fun w =>
  let (result, journal) := f w.journal
  (result, { w with journal })

/-- Changes the state of the caller. -/
def onCaller (f : E → E) : Action S E Unit := change fun w => { w with caller := f w.caller }

end Action

/-- A **value** that functions of the caller take and give: a matrix in the store or plain data. -/
inductive Value where
  /-- The matrix of a reference. -/
  | matrix (r : Ref)
  /-- A plain value. -/
  | plain (d : Datum)

end NewtonRaphson
