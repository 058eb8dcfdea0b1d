import NewtonRaphson.Proofs.Session.Names

/-! # Operations in place

A sum or a difference may be a new matrix, or it may overwrite the first operand. Both ways fit the
same operands, are refused for the same causes, and come to the same entries, also where both
operands are one matrix under two names.

* **`Operand.Misfits a b kind`** — the operand `b` cannot be added to the matrix `a`, and the kind
  of the fault that this is; a fault of the precision comes before one of the shape.
* **`DenseMatrix.Combines a f`** — `f` makes a matrix of the size of `a` of every operand that fits
  `a`, and refuses every other: so do sums, differences and assignments.
* **`Session.inPlace_agrees`** — the three operations in place. -/

namespace NewtonRaphson

/-! ## (1) Operands that fit -/

/-- An operand **misfits** a matrix that it is to be added to, subtracted from or assigned to: it is
no matrix, or one of another precision or shape. The kind is that of the fault. -/
inductive Operand.Misfits (a : DenseMatrix Float) : Operand → Fault.Kind → Prop
  | plain (d : Datum) : Misfits a (.plain d) .type
  | precision {b : DenseMatrix Float} (hprecision : a.precision ≠ b.precision) :
      Misfits a (.matrix b) .type
  | shape {b : DenseMatrix Float} (hprecision : a.precision = b.precision)
      (hshape : b.shape ≠ a.shape) :
    Misfits a (.matrix b) .value

/-- An operand is a matrix that may stand in the place of `a`, or it misfits. -/
theorem Operand.follows_or_misfits (a : DenseMatrix Float) (b : Operand) :
    (∃ c, b = .matrix c ∧ a.Follows c) ∨ ∃ kind, b.Misfits a kind := by
  cases b with
  | plain d => exact .inr ⟨.type, .plain d⟩
  | matrix c =>
    by_cases hprecision : a.precision = c.precision
    · by_cases hshape : c.shape = a.shape
      · exact .inl ⟨c, rfl, hprecision.symm, hshape⟩
      · exact .inr ⟨.value, .shape hprecision hshape⟩
    · exact .inr ⟨.type, .precision hprecision⟩

namespace DenseMatrix

variable {a b : DenseMatrix Float}

/-- Matrices of one shape have as many rows and columns. -/
theorem shape_eq_iff : b.shape = a.shape ↔ a.rows = b.rows ∧ a.cols = b.cols :=
  ⟨fun h => ⟨(congrArg Prod.fst h).symm, (congrArg Prod.snd h).symm⟩,
    fun h => Prod.ext h.1.symm h.2.symm⟩

/-- What `f` makes of a matrix and an operand is a **combination** with the matrix: there is a
result, of the size and precision of the matrix, for every operand that fits, and a fault of the
right kind for every other. -/
structure Combines (a : DenseMatrix Float)
    (f : Operand → Except Fault (DenseMatrix Float)) : Prop where
  fits : ∀ c, a.Follows c → ∃ m, f (.matrix c) = .ok m ∧ a.Follows m
  refuses : ∀ b kind, b.Misfits a kind → ∃ cause, f b = .error cause ∧ cause.kind = kind

/-- An operation that combines matrices entry by entry and refuses plain values. -/
theorem combines_of_combine (operation : Operation) (f : Precision → Float → Float → Float)
    {g : Operand → Except Fault (DenseMatrix Float)}
    (hmatrix : ∀ b, g (.matrix b) = combine operation f a b)
    (hplain : ∀ d, ∃ cause, g (.plain d) = .error cause ∧ cause.kind = .type) : Combines a g where
  fits c hc := by
    have hs := shape_eq_iff.mp hc.shape_eq
    rw [hmatrix, combine, if_pos hc.precision_eq.symm, dif_pos hs]
    exact ⟨_, rfl, rfl, rfl⟩
  refuses b kind hb := by
    cases hb with
    | plain d => exact hplain d
    | precision hprecision =>
      rw [hmatrix, combine, if_neg hprecision]
      exact ⟨_, rfl, rfl⟩
    | shape hprecision hshape =>
      rw [hmatrix, combine, if_pos hprecision, dif_neg fun hs => hshape (shape_eq_iff.mpr hs)]
      exact ⟨_, rfl, rfl⟩

/-- A matrix that is assigned one that fits is that one, bit for bit. -/
theorem overwrite_of_follows (h : a.Follows b) : a.overwrite b = .ok b :=
  have hs := shape_eq_iff.mp h.shape_eq
  combine_eq_ok_iff.mpr ⟨h.precision_eq.symm, h.precision_eq, ⟨hs.1.symm, hs.2.symm⟩, ⟨rfl, rfl⟩,
    fun _ _ => rfl⟩

end DenseMatrix

open DenseMatrix (Combines combines_of_combine)

/-- Sums and differences overwrite. -/
theorem Operator.overwrites_of_sum {operator : Operator} (h : operator = .add ∨ operator = .sub) :
    operator.overwrites = true := by
  rcases h with rfl | rfl <;> rfl

/-- The operators that overwrite are combinations. -/
theorem Operator.combines_apply {operator : Operator} (hoverwrites : operator.overwrites = true)
    (a : DenseMatrix Float) : Combines a (operator.apply (.matrix a)) := by
  cases operator with
  | add => exact combines_of_combine .addition Scalar.add (fun _ => rfl) fun _ => ⟨_, rfl, rfl⟩
  | sub => exact combines_of_combine .subtraction Scalar.sub (fun _ => rfl) fun _ => ⟨_, rfl, rfl⟩
  | scale | divide | multiply => cases hoverwrites

/-- So is assignment. -/
theorem Operand.combines_assignTo (a : DenseMatrix Float) : Combines a (·.assignTo a) :=
  combines_of_combine .assignment (fun _ _ y => y) (fun _ => rfl) fun _ => ⟨_, rfl, rfl⟩

/-! ## (2) The commands -/

namespace Session

variable {w : World Float Caller} {name : String} {r : Ref} {a : DenseMatrix Float} {right : Source}
  {b : Operand}

/-- **Operations in place agree with those that make a new matrix.** Let a name stand for the matrix
`a` of `r`, and let `b` be any operand, also `a` itself under this or another name.
* If `b` is a matrix that fits `a`, a sum or a difference is made as a new matrix and in place, with
  the same entries. What is made in place has the size and the precision of `a`, every name of `r`
  shows it, and every other matrix is unchanged. An assignment leaves `b`, bit for bit, in the same
  way.
* If not, all of them are refused with faults of one kind, those of the two ways for the same cause,
  and nothing at all is changed. -/
theorem inPlace_agrees (fuel : Nat) (h : Holds w name r a) (hb : operandOf right w = (.ok b, w)) :
    (∃ c, b = .matrix c ∧ a.Follows c ∧
      (∀ operator into, operator = .add ∨ operator = .sub → ∃ m w₁ w₂,
        run fuel (.combine operator into (.register name) right) w = (.ok (.matrix m), w₁) ∧
        run fuel (.update operator name right) w = (.ok (.matrix m), w₂) ∧ a.Follows m ∧
        Replaces r m w w₂) ∧
      ∃ w', run fuel (.assign name right) w = (.ok (.matrix c), w') ∧ Replaces r c w w') ∨
    ∃ kind, b.Misfits a kind ∧
      (∀ operator into, operator = .add ∨ operator = .sub → ∃ cause, cause.kind = kind ∧
        run fuel (.combine operator into (.register name) right) w = (.error cause, w) ∧
        run fuel (.update operator name right) w = (.error cause, w)) ∧
      ∃ cause, cause.kind = kind ∧ run fuel (.assign name right) w = (.error cause, w) := by
  rcases b.follows_or_misfits a with ⟨c, rfl, hc⟩ | ⟨kind, hkind⟩
  · -- both ways apply the operator to the old matrices; only then is one of them overwritten
    refine .inl ⟨c, rfl, hc, fun operator into hoperator => ?_, ?_⟩
    · have hoverwrites := Operator.overwrites_of_sum hoperator
      obtain ⟨m, hm, hfollows⟩ := (Operator.combines_apply hoverwrites a).fits c hc
      refine ⟨m, delivered into m w, replacing r m w, ?_, ?_, hfollows, replaces_replacing h.held m⟩
      · rw [run_combine fuel h hb, hm]
        rfl
      · rw [run_update fuel h hb hoverwrites, hm]
        rfl
    · refine ⟨replacing r c w, ?_, replaces_replacing h.held c⟩
      rw [run_assign fuel h hb, show (Operand.matrix c).assignTo a =
        .ok c from DenseMatrix.overwrite_of_follows hc]
      rfl
  · refine .inr ⟨kind, hkind, fun operator into hoperator => ?_, ?_⟩
    · have hoverwrites := Operator.overwrites_of_sum hoperator
      obtain ⟨cause, hm, hcause⟩ := (Operator.combines_apply hoverwrites a).refuses b kind hkind
      refine ⟨cause, hcause, ?_, ?_⟩
      · rw [run_combine fuel h hb, hm]
        rfl
      · rw [run_update fuel h hb hoverwrites, hm]
        rfl
    · obtain ⟨cause, hm, hcause⟩ := (Operand.combines_assignTo a).refuses b kind hkind
      refine ⟨cause, hcause, ?_⟩
      rw [run_assign fuel h hb, hm]
      rfl

/-- Adding the matrix of one name to that of the other in place is adding it to itself: both names
show the sum. -/
theorem inPlace_agrees_of_twoNames :
    Holds twoNames "x" 0 oneTwo ∧ operandOf (.register "y") twoNames =
      (.ok (.matrix oneTwo), twoNames) ∧
      ∃ m w', run 0 (.update .add "x" (.register "y")) twoNames = (.ok (.matrix m), w') ∧
        (run 0 (.combine .add none (.register "x") (.register "y")) twoNames).1 = .ok (.matrix m) ∧
        Holds w' "x" 0 m ∧ Holds w' "y" 0 m := by
  have hx := holds_twoNames_x
  have hy := holds_twoNames_y
  refine ⟨hx, hy.operandOf_eq, ?_⟩
  rcases inPlace_agrees 0 hx hy.operandOf_eq with ⟨c, -, -, hoperators, -⟩ | ⟨kind, hkind, -⟩
  · obtain ⟨m, w₁, w₂, hcombine, hupdate, -, hreplaces⟩ := hoperators .add none (.inl rfl)
    refine ⟨m, w₂, hupdate, congrArg Prod.fst hcombine, hreplaces.seen "x" hx.lookup,
      hreplaces.seen "y" hy.lookup⟩
  · -- a matrix fits itself
    cases hkind with
    | precision hprecision => exact absurd rfl hprecision
    | shape hprecision hshape => exact absurd rfl hshape

end Session

end NewtonRaphson
