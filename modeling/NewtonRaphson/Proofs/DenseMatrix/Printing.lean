import NewtonRaphson.DenseMatrix.Printer
import NewtonRaphson.Proofs.Decimal.Reading
import NewtonRaphson.Proofs.DenseMatrix

/-! # The long text of a matrix

The long text names size and precision and shows all entries, rows in brackets inside brackets. It
is read from left to right: the names end at commas, and an entry ends where a comma or a bracket
follows, which no entry has in it.

* **`DenseMatrix.Separable`** — ways of writing where what was written can be told from what
  follows.
* **`DenseMatrix.bracketed_append_inj`** — lists of one length in brackets are separable if their
  items are.
* **`DenseMatrix.describe_eq_iff`** — matrices have the same long text exactly if they have the same
  size and precision and in each place the same entry. -/

namespace NewtonRaphson

namespace DenseMatrix

/-! ## (1) Lists in brackets -/

/-- What ends an item of a list: a comma or a closing bracket. -/
def isDelimiter (c : Char) : Bool := c == ',' || c == ']'

/-- A text **delimits** what stands in front of it if it begins with such a character. -/
def Delimits (t : List Char) : Prop := ∃ c u, t = c :: u ∧ isDelimiter c = true

/-- A way of writing is **separable** if what was written, and what follows it, are known by the
whole text, as far as what follows delimits it. -/
def Separable {α : Type} (write : α → List Char) : Prop :=
  ∀ {x y r s}, Delimits r → Delimits s → write x ++ r = write y ++ s → x = y ∧ r = s

/-- Texts that have no delimiter in them are separable. -/
theorem separable_of_injective {α : Type} {write : α → List Char}
    (hinjective : Function.Injective write) (hfree : ∀ x, ∀ c ∈ write x, isDelimiter c = false) :
    Separable write := by
  intro x y r s hr hs h
  have hcut {x r} (hr : Delimits r) :
      (write x ++ r).takeWhile (fun c => !isDelimiter c) = write x := by
    obtain ⟨c, u, rfl, hc⟩ := hr
    have hitem : ∀ c ∈ write x, (!isDelimiter c) = true := fun c hc => by rw [hfree x c hc]; rfl
    rw [List.takeWhile_append_of_pos hitem, List.takeWhile_cons_of_neg (by rw [hc]; decide),
      List.append_nil]
  obtain rfl : x = y := hinjective ((hcut hr).symm.trans ((congrArg _ h).trans (hcut hs)))
  exact ⟨rfl, List.append_cancel_left h⟩

section Brackets

variable {α : Type} (write : α → String)

/-- The rest of a list in brackets behind its first item, and what follows it. -/
def closing : List α → List Char → List Char
  | [], r => ']' :: r
  | x :: xs, r => ',' :: ' ' :: ((write x).toList ++ closing xs r)

theorem delimits_closing (xs : List α) (r : List Char) : Delimits (closing write xs r) := by
  cases xs with
  | nil => exact ⟨_, _, rfl, rfl⟩
  | cons => exact ⟨_, _, rfl, rfl⟩

/-- A list in brackets begins with its first item. -/
theorem bracketed_cons_append (x : α) (xs : List α) (r : List Char) :
    (bracketed ((x :: xs).map write)).toList ++ r =
      '[' :: ((write x).toList ++ closing write xs r) := by
  have hitems : (", ".intercalate ((x :: xs).map write)).toList ++ ']' :: r =
      (write x).toList ++ closing write xs r := by
    induction xs generalizing x with
    | nil => simp [closing]
    | cons y ys ih =>
      simpa [closing, String.toList_intercalate, List.intercalate_cons_cons] using ih y
  rw [bracketed, String.toList_append, String.toList_append, List.append_assoc, List.append_assoc]
  exact congrArg ('[' :: ·) hitems

variable {write} (hwrite : Separable fun x => (write x).toList)
include hwrite

/-- The rests of two lists of one length are known by their texts. -/
theorem closing_inj {xs ys : List α} (hlength : xs.length = ys.length) {r s : List Char}
    (h : closing write xs r = closing write ys s) : xs = ys ∧ r = s := by
  induction xs generalizing ys with
  | nil =>
    obtain rfl := List.length_eq_zero_iff.mp hlength.symm
    exact ⟨rfl, (List.cons.inj h).2⟩
  | cons x xs ih =>
    obtain ⟨y, ys, rfl⟩ := List.exists_cons_of_length_eq_add_one hlength.symm
    have hitem := (List.cons.inj (List.cons.inj h).2).2
    obtain ⟨rfl, hrest⟩ := hwrite (delimits_closing write xs r) (delimits_closing write ys s) hitem
    obtain ⟨rfl, rfl⟩ := ih (Nat.succ.inj hlength) hrest
    exact ⟨rfl, rfl⟩

/-- **Lists of one length in brackets** are known by their texts, and so is what follows them. -/
theorem bracketed_append_inj {xs ys : List α} (hlength : xs.length = ys.length) {r s : List Char}
    (h : (bracketed (xs.map write)).toList ++ r = (bracketed (ys.map write)).toList ++ s) :
    xs = ys ∧ r = s := by
  cases xs with
  | nil =>
    obtain rfl := List.length_eq_zero_iff.mp hlength.symm
    exact ⟨rfl, List.append_cancel_left h⟩
  | cons x xs =>
    obtain ⟨y, ys, rfl⟩ := List.exists_cons_of_length_eq_add_one hlength.symm
    rw [bracketed_cons_append, bracketed_cons_append] at h
    obtain ⟨rfl, hrest⟩ :=
      hwrite (delimits_closing write xs r) (delimits_closing write ys s) (List.cons.inj h).2
    obtain ⟨rfl, rfl⟩ := closing_inj hwrite (Nat.succ.inj hlength) hrest
    exact ⟨rfl, rfl⟩

end Brackets

/-! ## (2) Entries and rows -/

theorem separable_plain : Separable fun x => (Numeral.plain x).toList := by
  refine separable_of_injective (fun _ _ h => Numeral.plain_injective (String.toList_inj.mp h))
    fun x c hc => ?_
  obtain ⟨hcomma, hbracket⟩ := Numeral.ne_of_mem_plain hc
  rw [isDelimiter, beq_eq_false_iff_ne.mpr hcomma, beq_eq_false_iff_ne.mpr hbracket]
  rfl

/-- The text of a row. -/
def rowText {c : Nat} (row : Vector Float c) : String := bracketed (row.toList.map Numeral.plain)

/-- Rows of one length are separable. -/
theorem separable_rowText {c : Nat} :
    Separable fun row : Vector Float c => (rowText row).toList := by
  intro x y r s _ _ h
  obtain ⟨hrow, hrest⟩ := bracketed_append_inj separable_plain (by simp) h
  exact ⟨Vector.toList_inj.mp hrow, hrest⟩

/-- Grids of one size are known by their texts. -/
theorem grid_eq_of_bracketed {r c : Nat} {g g' : Grid Float r c}
    (h : bracketed (g.rows.toList.map rowText) = bracketed (g'.rows.toList.map rowText)) :
    g = g' := by
  have htext : (bracketed (g.rows.toList.map rowText)).toList ++ [] =
      (bracketed (g'.rows.toList.map rowText)).toList ++ [] := by
    rw [h]
  obtain ⟨hrows, -⟩ := bracketed_append_inj separable_rowText (by simp) htext
  obtain ⟨rows⟩ := g
  obtain ⟨rows'⟩ := g'
  exact congrArg Grid.mk (Vector.toList_inj.mp hrows)

/-! ## (3) Matrices -/

/-- Sizes are known by their texts, which have no comma in them. -/
theorem eq_of_toString {m n : Nat} (h : (toString m).toList = (toString n).toList) : m = n := by
  have hdigits : Nat.toDigits 10 m = Nat.toDigits 10 n :=
    Nat.toList_repr.symm.trans (h.trans Nat.toList_repr)
  rw [← digitsValue_toDigits m, hdigits, digitsValue_toDigits]

theorem comma_notMem_toString (n : Nat) : ',' ∉ (toString n).toList := by
  have hdigits : (toString n).toList = Nat.toDigits 10 n := Nat.toList_repr
  rw [hdigits]
  exact Numeral.notMem_of_areDigits (areDigits_toDigits n) (by decide)

/-- So are precisions. -/
theorem eq_of_name {p q : Precision} (h : p.name.toList = q.name.toList) : p = q := by
  have hback := congrArg Precision.ofName? (String.toList_inj.mp h)
  rwa [Precision.ofName?_name, Precision.ofName?_name, Option.some.injEq] at hback

theorem comma_notMem_name (p : Precision) : ',' ∉ p.name.toList := by cases p <;> decide

/-- The long text, field after field. -/
theorem describe_eq (a : DenseMatrix Float) :
    a.describe = "Matrix(rows=" ++ toString a.rows ++ ", cols=" ++
    toString a.cols ++ ", dtype=" ++ a.precision.name ++ ", data=" ++
    bracketed (a.grid.rows.toList.map rowText) ++ ")" := by
  have hrows : (a.toLists.map fun row => bracketed (row.map Numeral.plain)) =
      a.grid.rows.toList.map rowText :=
    List.map_map
  unfold describe
  simp only [hrows]
  rfl

/-- A field is known by the text up to the comma that the next label begins with. -/
theorem append_label_inj {label : String} {l s t r r' : List Char}
    (hlabel : label.toList = ',' :: l) (hs : ',' ∉ s) (ht : ',' ∉ t)
    (h : s ++ (label.toList ++ r) = t ++ (label.toList ++ r')) : s = t ∧ r = r' := by
  rw [hlabel] at h
  have hfield := congrArg (List.takeWhile (· != ',')) h
  rw [List.cons_append, List.cons_append, (Numeral.split_at hs _).1,
    (Numeral.split_at ht _).1] at hfield
  subst hfield
  exact ⟨rfl, List.append_cancel_left (List.append_cancel_left h)⟩

/-- **Matrices with the same long text** are those of one size and precision that have the same
entry in each place: the same number with the same sign, the same infinity, or both the undefined
value. -/
theorem describe_eq_iff (a b : DenseMatrix Float) :
    a.describe = b.describe ↔ ∃ (hr : a.rows = b.rows) (hc : a.cols = b.cols),
      a.precision = b.precision ∧
      ∀ i j, Double.Same (a.grid.get i j) (b.grid.get (i.cast hr) (j.cast hc)) := by
  constructor
  · intro h
    have htext := congrArg String.toList h
    rw [describe_eq, describe_eq] at htext
    simp only [String.toList_append, List.append_assoc] at htext
    obtain ⟨hr, htext⟩ :=
      append_label_inj String.toList_ofList (comma_notMem_toString _) (comma_notMem_toString _)
      (List.append_cancel_left htext)
    obtain ⟨hc, htext⟩ := append_label_inj String.toList_ofList (comma_notMem_toString _)
      (comma_notMem_toString _) htext
    obtain ⟨hp, htext⟩ :=
      append_label_inj String.toList_ofList (comma_notMem_name _) (comma_notMem_name _) htext
    have hdata := String.toList_inj.mp (List.append_cancel_right htext)
    obtain ⟨p, r, c, _, _, g⟩ := a
    obtain ⟨q, r', c', _, _, g'⟩ := b
    obtain rfl : r = r' := eq_of_toString hr
    obtain rfl : c = c' := eq_of_toString hc
    obtain rfl : g = g' := grid_eq_of_bracketed hdata
    exact ⟨rfl, rfl, eq_of_name hp, fun i j => Double.same_iff_eq.mpr rfl⟩
  · rintro ⟨hr, hc, hp, hsame⟩
    rw [ext_get hp hr hc fun i j => Double.same_iff_eq.mp (hsame i j)]

end DenseMatrix

end NewtonRaphson
