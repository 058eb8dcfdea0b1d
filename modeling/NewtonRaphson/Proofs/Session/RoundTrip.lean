import NewtonRaphson.Proofs.DenseMatrix.RoundTrip
import NewtonRaphson.Proofs.Session.Data

/-! # Reading a matrix out and building it again

What the commands that read a matrix show of it is enough to make it again, whatever its shape and
precision are.

* **`Session.GoneThrough`** — the list that reading with the single indices from zero on gives, up
  to the first refusal.
* **`Session.run_vectorOf`** — a vector is made of a matrix as it is made of this list.
* **`Session.built_again`** — the array of a matrix, the nested list of its entries, and for a
  column the list of what the single indices show, make the matrix again. -/

namespace NewtonRaphson

namespace Session

variable {w : World Float Caller} {name : String} {r : Ref} {m : DenseMatrix Float}

/-! ## (1) Going through a matrix -/

/-- A list is what **going through** the matrix of a name gives: the index of each item reads the
item, and the index behind the last one is refused. -/
structure GoneThrough (fuel : Nat) (name : String) (w : World Float Caller)
    (xs : List Float) : Prop where
  reads : ∀ (k : Nat) (hk : k < xs.length),
    run fuel (.getEntry name (.single (.int k))) w = (.ok (.number xs[k]), w)
  ends : ∃ cause, cause.kind = .index ∧
    run fuel (.getEntry name (.single (.int xs.length))) w = (.error cause, w)

/-- A matrix is gone through index by index. -/
theorem Holds.goneThrough (h : Holds w name r m) (fuel : Nat) : GoneThrough fuel name w m.walk := by
  have hrefused {n : Nat} (hn : m.cols ≠ 1 ∨ m.rows ≤ n) : ∃ cause, cause.kind = .index ∧
      run fuel (.getEntry name (.single (.int n))) w = (.error cause, w) := by
    obtain ⟨cause, hcause, hentry⟩ := DenseMatrix.exists_getEntry_single_eq_error hn
    exact ⟨cause, hcause, by rw [run_getEntry fuel h, hentry]; rfl⟩
  by_cases hcols : m.cols = 1
  · rw [DenseMatrix.walk_of_column hcols]
    have hlength : m.columnEntries.length = m.rows := List.length_ofFn
    refine ⟨fun k hk => ?_, hrefused (.inr hlength.ge)⟩
    have hentry := DenseMatrix.getEntry_single hcols ⟨k, hlength ▸ hk⟩
    rw [run_getEntry fuel h, hentry]
    simp only [DenseMatrix.columnEntries, List.getElem_ofFn]
    rfl
  · rw [DenseMatrix.walk_of_ne hcols]
    exact ⟨fun k hk => absurd hk (Nat.not_lt_zero k), hrefused (.inl hcols)⟩

theorem run_walk (fuel : Nat) (h : Holds w name r m) :
    run fuel (.walk name) w = (.ok (.numbers m.walk), w) := by
  rw [run, Action.bind_of_ok h.matrixOf_eq]
  rfl

/-! ## (2) Vectors -/

/-- Doubles are read as they are. -/
theorem vectorEntries_reals (xs : List Float) :
    DenseMatrix.vectorEntries (.list (xs.map .real)) = .ok xs := by
  have hleaf : ∀ d ∈ xs.map Datum.real, d.IsLeaf := List.forall_mem_map.mpr fun x _ => .real x
  show (xs.map Datum.real).mapM Datum.toEntry = .ok xs
  rw [Datum.mapM_toEntry_of_isLeaf hleaf, List.map_map]
  exact congrArg Except.ok (List.map_id xs)

/-- **A vector is made of a matrix** as it is made of the list that going through it gives. -/
theorem run_vectorOf (fuel : Nat) (h : Holds w name r m) (target : Option String)
    (choice : PrecisionChoice) :
    run fuel (.vectorOf target name choice) w =
      run fuel (.vector target (.list (m.walk.map .real)) choice) w := by
  rw [run, run, Action.bind_of_ok h.matrixOf_eq, vectorEntries_reals]
  rfl

/-- In a known precision it is the column of these entries. -/
theorem run_vectorOf_eq (fuel : Nat) (h : Holds w name r m) {choice : PrecisionChoice}
    {p : Precision} (hp : choice.resolve w.settings.precision = .ok p) (target : Option String) :
    run fuel (.vectorOf target name choice) w = made target w (DenseMatrix.column p m.walk) := by
  rw [run_vectorOf fuel h, run_vector fuel hp, DenseMatrix.vectorOfDatum, vectorEntries_reals]
  rfl

/-! ## (3) Building again -/

/-- **What is read out of a matrix makes it again.** Let the name of a matrix be known, and its
entries belong to its precision, in which it is made again.
* The array that it hands out makes the same matrix: the same size, the same precision, and in each
  place the same double, which for zeros includes the sign and for undefined values that they are
  undefined.
* So does the nested list of the entries, as pairs of indices read them.
* Going through it gives a list, and a vector is made of the matrix as it is made of that list. For
  a column this has an item for each row, and the vector is the same matrix; for any other matrix
  the list is empty, and there is no vector. -/
theorem built_again (fuel : Nat) (h : Holds w name r m) (hm : m.Representable)
    (target : Option String) :
    DenseMatrix.ofArray m.precision m.toArray = .ok m ∧
    (∃ x : Fin m.rows → Fin m.cols → Float,
      (∀ (i : Fin m.rows) (j : Fin m.cols),
        run fuel (.getEntry name (.tuple [.int (i : Nat), .int (j : Nat)])) w =
        (.ok (.number (x i j)), w)) ∧
      run fuel (.ofData target (.list (List.ofFn fun i => .list (List.ofFn fun j => .real (x i j))))
        (.fixed m.precision)) w = (.ok (.matrix m), delivered target m w)) ∧
    ∃ xs, GoneThrough fuel name w xs ∧ run fuel (.walk name) w = (.ok (.numbers xs), w) ∧
      (∀ choice, run fuel (.vectorOf target name choice) w =
        run fuel (.vector target (.list (xs.map .real)) choice) w) ∧
      (m.cols = 1 → xs.length = m.rows ∧
        run fuel (.vectorOf target name (.fixed m.precision)) w =
        (.ok (.matrix m), delivered target m w)) ∧
      (m.cols ≠ 1 → xs = [] ∧ ∀ choice p, choice.resolve w.settings.precision = .ok p →
        ∃ cause, cause.kind = .value ∧ run fuel (.vectorOf target name choice) w =
        (.error cause, w)) := by
  have hfixed : (PrecisionChoice.fixed m.precision).resolve w.settings.precision =
      .ok m.precision := rfl
  refine ⟨hm.ofArray_toArray, ⟨m.grid.get, fun i j => ?_, ?_⟩, m.walk, h.goneThrough fuel,
    run_walk fuel h, run_vectorOf fuel h target, fun hcols => ⟨?_, ?_⟩,
    fun hcols => ⟨?_, fun choice p hp => ?_⟩⟩
  · rw [run_getEntry fuel h, DenseMatrix.getEntry_of_denotes (.pair i j)]
    rfl
  · show run fuel (.ofData target m.nested (.fixed m.precision)) w = _
    rw [run_ofData fuel hfixed, hm.ofDatum_nested]
    rfl
  · rw [DenseMatrix.walk_of_column hcols]
    exact List.length_ofFn
  · rw [run_vectorOf_eq fuel h hfixed, hm.column_walk hcols]
    rfl
  · exact DenseMatrix.walk_of_ne hcols
  · refine ⟨.emptyDimension, rfl, ?_⟩
    rw [run_vectorOf_eq fuel h hp, DenseMatrix.walk_of_ne hcols]
    rfl

/-- A column of a negative zero and an undefined value, in single precision. -/
def zeroUndefined : DenseMatrix Float :=
  .ofFn .single Nat.two_pos Nat.one_pos fun i _ => if i.val = 0 then -0.0 else 0.0 / 0.0

/-- It is made again of its array, and of what the single indices show. -/
theorem built_again_of_zeroUndefined :
    ∃ w, Holds w "z" 1 zeroUndefined ∧ zeroUndefined.Representable ∧
    DenseMatrix.ofArray .single zeroUndefined.toArray = .ok zeroUndefined ∧
      run 0 (.vectorOf none "z" (.fixed .single)) w =
      (.ok (.matrix zeroUndefined), delivered none zeroUndefined w) := by
  have h : Holds (delivered (some "z") zeroUndefined twoNames) "z" 1 zeroUndefined :=
    holds_delivered "z" _ twoNames
  have hm : zeroUndefined.Representable :=
    (DenseMatrix.faithful_ofFn .single Nat.two_pos Nat.one_pos _).representable
  obtain ⟨harray, -, xs, -, -, -, hcolumn, -⟩ := built_again 0 h hm none
  exact ⟨_, h, hm, harray, (hcolumn rfl).2⟩

end Session

end NewtonRaphson
