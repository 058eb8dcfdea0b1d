import NewtonRaphson.Proofs.Decimal.Reading
import NewtonRaphson.Proofs.DenseMatrix.Access
import NewtonRaphson.Proofs.DenseMatrix.Representable
import NewtonRaphson.Proofs.Session.Names

/-! # Reading and writing entries

Which keys are accepted, what is written, and what is read afterwards under any name of the matrix.

* **`Datum.toEntry_text_plain`** — a double and its plain text are the same entry.
* **`Session.run_of_locate_error`**, **`Session.run_getEntry_of_denotes`**,
  **`Session.run_setEntry_of_ok`** — the two commands at a key that is refused, and at one that
  denotes a cell.
* **`Session.getEntry_after_setEntry`** — the laws of access to entries. -/

namespace NewtonRaphson

/-! ## (1) Texts as entries -/

/-- A text that is a numeral is the entry it reads as. -/
theorem Datum.toEntry_text_of_read {s : String} {x : Float} (h : Numeral.read? s = some x) :
    (Datum.text s).toEntry = .ok x := by
  rw [Datum.toEntry, h]
  rfl

/-- **A double and its plain text are the same entry.** -/
@[simp] theorem Datum.toEntry_text_plain (x : Float) :
    (Datum.text (Numeral.plain x)).toEntry = .ok x :=
  toEntry_text_of_read (Numeral.read?_plain x)

/-- A text that is no numeral is no entry. -/
theorem Datum.toEntry_text_of_none {s : String} (h : Numeral.read? s = none) :
    (Datum.text s).toEntry = .error .badValue := by
  rw [Datum.toEntry, h]
  rfl

/-! ## (2) Access under the names of a matrix -/

namespace Session

variable {w : World Float Caller} {name : String} {r : Ref} {m : DenseMatrix Float} {key : Key}
  {i : Fin m.rows} {j : Fin m.cols}

/-- A key that is refused is refused by reading and by writing for the same cause. -/
theorem run_of_locate_error (fuel : Nat) (h : Holds w name r m) {cause : Fault}
    (hlocate : m.locate key = .error cause) :
    run fuel (.getEntry name key) w = (.error cause, w) ∧
      ∀ value, run fuel (.setEntry name key value) w = (.error cause, w) := by
  constructor
  · rw [run_getEntry fuel h, DenseMatrix.getEntry_of_error hlocate]
    rfl
  · intro value
    rw [run_setEntry fuel h, DenseMatrix.setEntry_of_error hlocate]
    rfl

/-- Reading at a key that denotes a cell. -/
theorem run_getEntry_of_denotes (fuel : Nat) (h : Holds w name r m) (hkey : key.Denotes i j) :
    run fuel (.getEntry name key) w = (.ok (.number (m.grid.get i j)), w) := by
  rw [run_getEntry fuel h, DenseMatrix.getEntry_of_denotes hkey]
  rfl

/-- Writing a value that is no entry. -/
theorem run_setEntry_of_error (fuel : Nat) (h : Holds w name r m) (hkey : key.Denotes i j)
    {value : Datum} {cause : Fault} (hvalue : value.toEntry = .error cause) :
    run fuel (.setEntry name key value) w = (.error cause, w) := by
  rw [run_setEntry fuel h, DenseMatrix.setEntry_of_denotes hkey, hvalue]
  rfl

/-- Writing a value at a key that denotes a cell. -/
theorem run_setEntry_of_ok (fuel : Nat) (h : Holds w name r m) (hkey : key.Denotes i j)
    {value : Datum} {x : Float} (hvalue : value.toEntry = .ok x) :
    run fuel (.setEntry name key value) w =
      (.ok (.matrix (m.written i j x)), replacing r (m.written i j x) w) := by
  rw [run_setEntry fuel h, DenseMatrix.setEntry_of_denotes hkey, hvalue]
  rfl

/-- Writing the plain text of a double is writing the double, at every key and under every name. -/
theorem run_setEntry_text_plain (fuel : Nat) (name : String) (key : Key) (x : Float)
    (w : World Float Caller) :
    run fuel (.setEntry name key (.text (Numeral.plain x))) w =
      run fuel (.setEntry name key (.real x)) w := by
  have hset (m : DenseMatrix Float) :
      m.setEntry key (.text (Numeral.plain x)) = m.setEntry key (.real x) := by
    rw [DenseMatrix.setEntry, Datum.toEntry_text_plain]
    rfl
  rw [run, run]
  simp only [hset]

/-- **The laws of access to entries.** Let a name stand for a matrix.
* A key that denotes no cell of it is refused as a wrong index, by reading and by writing for the
  same cause, whatever the value is that is to be written, and nothing is changed.
* A key that denotes a cell is accepted by both. Reading gives the entry of this cell. A value that
  cannot be converted is refused, and nothing is changed; any other is converted to the precision of
  the matrix and put in this cell. Size and precision stay, other matrices are unchanged, and every
  name of the matrix shows the new entry at the keys of this cell, and at all other keys what it
  showed. -/
theorem getEntry_after_setEntry (fuel : Nat) (h : Holds w name r m) (key : Key) :
    ((∀ (i : Fin m.rows) (j : Fin m.cols), ¬ key.Denotes i j) →
      ∃ cause, cause.kind = .index ∧ run fuel (.getEntry name key) w = (.error cause, w) ∧
        ∀ value, run fuel (.setEntry name key value) w = (.error cause, w)) ∧
    ∀ (i : Fin m.rows) (j : Fin m.cols), key.Denotes i j →
      run fuel (.getEntry name key) w = (.ok (.number (m.grid.get i j)), w) ∧
      ∀ value,
        (∀ cause, value.toEntry = .error cause →
          run fuel (.setEntry name key value) w = (.error cause, w)) ∧
        ∀ x, value.toEntry = .ok x → ∃ n w',
          run fuel (.setEntry name key value) w = (.ok (.matrix n), w') ∧ m.Follows n ∧
          Replaces r n w w' ∧ ∀ other, Holds w other r m → ∀ key' : Key,
            (key'.Denotes i j →
              run fuel (.getEntry other key') w' = (.ok (.number (m.precision.nearest x)), w')) ∧
            (¬ key'.Denotes i j →
              (run fuel (.getEntry other key') w').1 = (run fuel (.getEntry other key') w).1) := by
  refine ⟨fun hkey => ?_, fun i j hkey =>
    ⟨run_getEntry_of_denotes fuel h hkey, fun value => ⟨?_, ?_⟩⟩⟩
  · obtain ⟨cause, hlocate, hcause⟩ := DenseMatrix.exists_locate_eq_error hkey
    exact ⟨cause, hcause, run_of_locate_error fuel h hlocate⟩
  · exact fun cause hvalue => run_setEntry_of_error fuel h hkey hvalue
  · intro x hvalue
    have hreplaces := replaces_replacing h.held (m.written i j x)
    refine ⟨_, _, run_setEntry_of_ok fuel h hkey hvalue, ⟨rfl, rfl⟩, hreplaces,
      fun other hother key' => ?_⟩
    -- the other name shows what was written, so reading is that of the matrix with the entry
    -- replaced
    have hread := run_getEntry fuel (hreplaces.seen other hother.lookup) key'
    obtain ⟨hsame, hdifferent⟩ := DenseMatrix.getEntry_set m i j (m.precision.nearest x) key'
    constructor
    · intro hkey'
      rw [hread, DenseMatrix.written, hsame hkey']
      rfl
    · intro hkey'
      rw [hread, run_getEntry fuel hother, DenseMatrix.written, hdifferent hkey']

/-- An entry that is written under one name of a matrix and read under the other, the value being a
truth value or a numeral with blanks around it. A text that is no numeral is refused. -/
theorem getEntry_after_setEntry_of_twoNames :
    Holds twoNames "x" 0 oneTwo ∧
      (∃ w', (run 0 (.setEntry "x" (.single (.int 1)) (.bool true)) twoNames).2 = w' ∧
        run 0 (.getEntry "y" (.tuple [.int 1, .int 0])) w' =
          (.ok (.number (Precision.double.nearest 1.0)), w') ∧
        (run 0 (.getEntry "y" (.single (.int 0))) w').1 =
          (run 0 (.getEntry "y" (.single (.int 0))) twoNames).1) ∧
      (∃ w', (run 0 (.setEntry "x" (.single (.int 1)) (.text " 1_0.5e-1\n")) twoNames).2 = w' ∧
        run 0 (.getEntry "y" (.tuple [.int 1, .int 0])) w' =
          (.ok (.number (Precision.double.nearest 1.05)), w')) ∧
      run 0 (.setEntry "x" (.single (.int 1)) (.text "one")) twoNames =
        (.error .badValue, twoNames) := by
  let one : Fin oneTwo.rows := ⟨1, by decide⟩
  let zero : Fin oneTwo.cols := ⟨0, by decide⟩
  have hwrite : (Key.single (.int 1)).Denotes one zero := .single rfl one zero
  have hpair : (Key.tuple [.int 1, .int 0]).Denotes one zero := .pair one zero
  have hother : ¬ (Key.single (.int 0)).Denotes one zero := by
    let first : Fin oneTwo.rows := ⟨0, by decide⟩
    have hfirst : (Key.single (.int 0)).Denotes first zero := .single rfl first zero
    intro h
    exact absurd (DenseMatrix.denotes_unique h hfirst).1 (by decide)
  obtain ⟨-, haccess⟩ := getEntry_after_setEntry 0 holds_twoNames_x (.single (.int 1))
  obtain ⟨-, hvalue⟩ := haccess one zero hwrite
  have htext : (Datum.text " 1_0.5e-1\n").toEntry = .ok 1.05 :=
    Datum.toEntry_text_of_read (by decide +kernel)
  have hword : (Datum.text "one").toEntry = .error .badValue :=
    Datum.toEntry_text_of_none (by decide +kernel)
  obtain ⟨_, w₁, hrun₁, -, -, hread₁⟩ := (hvalue (.bool true)).2 1.0 rfl
  obtain ⟨_, w₂, hrun₂, -, -, hread₂⟩ := (hvalue (.text " 1_0.5e-1\n")).2 1.05 htext
  exact ⟨holds_twoNames_x,
    ⟨w₁, congrArg Prod.snd hrun₁, (hread₁ "y" holds_twoNames_y _).1 hpair,
      (hread₁ "y" holds_twoNames_y _).2 hother⟩,
    ⟨w₂, congrArg Prod.snd hrun₂, (hread₂ "y" holds_twoNames_y _).1 hpair⟩,
    (hvalue (.text "one")).1 .badValue hword⟩

end Session

end NewtonRaphson
