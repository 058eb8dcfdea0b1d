import NewtonRaphson.Proofs.DenseMatrix.Reading
import NewtonRaphson.Proofs.Session.Names

/-! # Matrices from data

The two commands that make a matrix of a nested list, for lists that are nested to any depth over
leaves.

* **`Session.run_ofData`**, **`Session.run_vector`** — what they come to in a known precision.
* **`Session.ofData_accepts`** — which nested lists they accept, and what they make of them. -/

namespace NewtonRaphson

namespace Session

variable {w : World Float Caller} {d : Datum} {choice : PrecisionChoice} {p : Precision}

theorem resolve_eq (hp : choice.resolve w.settings.precision = .ok p) :
    (Action.resolve choice : SessionAction Precision) w = (.ok p, w) :=
  congrArg (·, w) hp

theorem run_ofData (fuel : Nat) (hp : choice.resolve w.settings.precision = .ok p)
    (target : Option String) (d : Datum) :
    run fuel (.ofData target d choice) w = made target w (DenseMatrix.ofDatum p d) := by
  rw [run, Action.bind_of_ok (resolve_eq hp)]
  cases DenseMatrix.ofDatum p d with
  | ok m => exact deliver_apply target m w
  | error cause => rfl

theorem run_vector (fuel : Nat) (hp : choice.resolve w.settings.precision = .ok p)
    (target : Option String) (d : Datum) :
    run fuel (.vector target d choice) w = made target w (DenseMatrix.vectorOfDatum p d) := by
  rw [run, DenseMatrix.vectorOfDatum]
  rcases DenseMatrix.vectorEntries d with cause | entries
  · rfl
  · rw [ofExcept_bind, Action.bind_of_ok (resolve_eq hp)]
    show _ = made target w (DenseMatrix.column p entries)
    cases DenseMatrix.column p entries with
    | ok m => exact deliver_apply target m w
    | error cause => rfl

/-- **Matrices are made of the well-formed data only.** Let `d` be nested to any depth over leaves,
and let a precision be chosen.
* If `d` is a flat list that is not empty, both commands make a column of its items, each converted.
* If `d` is a list of flat lists that have one length and are not empty, the first makes a matrix
  with these rows.
* The second command refuses all that is not of the first form, and the first all that is of neither
  form, as a wrong value; and then nothing is changed. -/
theorem ofData_accepts (fuel : Nat) (hd : d.IsNest)
    (hp : choice.resolve w.settings.precision = .ok p) (target : Option String) :
    (∀ (r : ℕ) (x : Fin r → Datum) (h : d.IsFlat x),
      ∃ m, m = DenseMatrix.ofFn p h.pos Nat.one_pos (fun i _ => (x i).entry) ∧
        run fuel (.ofData target d choice) w = (.ok (.matrix m), delivered target m w) ∧
        run fuel (.vector target d choice) w = (.ok (.matrix m), delivered target m w)) ∧
    (∀ (r c : ℕ) (x : Fin r → Fin c → Datum) (h : d.IsTable x),
      ∃ m, m = DenseMatrix.ofFn p h.rows_pos h.cols_pos (fun i j => (x i j).entry) ∧
        run fuel (.ofData target d choice) w = (.ok (.matrix m), delivered target m w)) ∧
    ((∀ (r : ℕ) (x : Fin r → Datum), ¬ d.IsFlat x) →
      (∃ cause, run fuel (.vector target d choice) w = (.error cause, w)) ∧
      ((∀ (r c : ℕ) (x : Fin r → Fin c → Datum), ¬ d.IsTable x) →
        ∃ cause, cause.kind = .value ∧ run fuel (.ofData target d choice) w =
        (.error cause, w))) := by
  refine ⟨fun r x h => ⟨_, rfl, ?_, ?_⟩, fun r c x h => ⟨_, rfl, ?_⟩,
    fun hflat => ⟨?_, fun htable => ?_⟩⟩
  · rw [run_ofData fuel hp, DenseMatrix.ofDatum_of_isFlat h]
    rfl
  · rw [run_vector fuel hp, DenseMatrix.vectorOfDatum_of_isFlat h]
    rfl
  · rw [run_ofData fuel hp, DenseMatrix.ofDatum_of_isTable h]
    rfl
  · rw [run_vector fuel hp]
    rcases hm : DenseMatrix.vectorOfDatum p d with cause | m
    · exact ⟨cause, rfl⟩
    · obtain ⟨r, x, h⟩ := DenseMatrix.exists_isFlat_of_vectorOfDatum hd hm
      exact absurd h (hflat r x)
  · rw [run_ofData fuel hp]
    rcases DenseMatrix.ofDatum_cases hd p with ⟨r, x, h⟩ | ⟨r, c, x, h⟩ | ⟨cause, hcause, hm⟩
    · exact absurd h (hflat r x)
    · exact absurd h (htable r c x)
    · exact ⟨cause, hcause, by rw [hm]; rfl⟩

/-- One row with an integer and a truth value. -/
def rowOfTwo : Fin 1 → Fin 2 → Datum := fun _ => Fin.cons (.int 1) fun _ => .bool true

/-- The table of this row is accepted by the first command, for a matrix of one row, and refused by
the second. -/
theorem ofData_accepts_of_table : ∃ d : Datum, d = .list [.list [.int 1, .bool true]] ∧ d.IsNest ∧
    (PrecisionChoice.fixed .single).resolve twoNames.settings.precision = .ok .single ∧
      (∃ m, run 0 (.ofData (some "z") d (.fixed .single)) twoNames =
        (.ok (.matrix m), delivered (some "z") m twoNames) ∧ m.shape = (1, 2)) ∧
      ∃ cause, run 0 (.vector none d (.fixed .single)) twoNames = (.error cause, twoNames) := by
  have htable : (Datum.list [.list [.int 1, .bool true]]).IsTable rowOfTwo := by
    refine ⟨Nat.one_pos, Nat.two_pos, rfl, fun _ j => ?_⟩
    cases j using Fin.cases with
    | zero => exact .int 1 (Double.lt_bound_of_short (by norm_num))
    | succ j => exact .bool true
  have hflat (r : ℕ) (x : Fin r → Datum) :
      ¬ (Datum.list [.list [.int 1, .bool true]]).IsFlat x := by
    rintro ⟨-, hlist, hleaf⟩
    have hrow : Datum.list [.int 1, .bool true] ∈ List.ofFn x := by
      rw [← Datum.list.inj hlist]
      exact List.mem_singleton_self _
    obtain ⟨i, hi⟩ := List.mem_ofFn.mp hrow
    have hleaf := hleaf i
    rw [hi] at hleaf
    cases hleaf
  have hp : (PrecisionChoice.fixed .single).resolve twoNames.settings.precision = .ok .single := rfl
  obtain ⟨-, haccepts, -⟩ := ofData_accepts 0 htable.isNest hp (some "z")
  obtain ⟨m, rfl, hrun⟩ := haccepts 1 2 rowOfTwo htable
  obtain ⟨-, -, hrefuses⟩ := ofData_accepts 0 htable.isNest hp none
  exact ⟨_, rfl, htable.isNest, rfl, ⟨_, hrun, rfl⟩, (hrefuses hflat).1⟩

end Session

end NewtonRaphson
