import NewtonRaphson.DenseMatrix.Reading
import NewtonRaphson.Proofs.Double.Integers

/-! # Nested lists as matrices

Which nested lists are matrices is known by the way they are nested, over leaves that are all
numbers.

* **`Datum.IsLeaf`**, **`Datum.IsNest`** — leaves, and lists nested to any depth over them.
* **`Datum.IsFlat`**, **`Datum.IsTable`** — the two well-formed ones: the flat lists, and the lists
  of flat lists of one length, neither of them empty.
* **`DenseMatrix.ofDatum_of_isFlat`**, **`DenseMatrix.ofDatum_of_isTable`** — what they become;
  **`DenseMatrix.ofDatum_cases`** — every other nest is refused as a wrong value.
* **`DenseMatrix.vectorOfDatum_of_isFlat`**, **`DenseMatrix.exists_isFlat_of_vectorOfDatum`** —
  columns are made of flat lists only, and are then the same. -/

namespace NewtonRaphson

namespace Datum

/-! ## (1) Leaves and nests -/

/-- A **leaf**: a number, a truth value, or the absent value. Integers are in the range of
doubles. -/
inductive IsLeaf : Datum → Prop
  | null : IsLeaf .null
  | bool (b : Bool) : IsLeaf (.bool b)
  | int (n : Int) (hn : (n.natAbs : ℚ) < Double.bound) : IsLeaf (.int n)
  | real (x : Float) : IsLeaf (.real x)

/-- Lists **nested** to any depth over leaves. -/
inductive IsNest : Datum → Prop
  | leaf {d : Datum} (h : d.IsLeaf) : IsNest d
  | list {items : List Datum} (h : ∀ d ∈ items, IsNest d) : IsNest (.list items)

/-- The double that a leaf **stands for**: the absent value for none, a truth value for one or
zero. -/
def entry : Datum → Float
  | null | text _ | list _ | record _ => 0.0 / 0.0
  | bool b => if b then 1.0 else 0.0
  | int n => Float.ofInt n
  | real x => x

/-- A **flat list** of the leaves `x`, at least one. -/
structure IsFlat (d : Datum) {r : ℕ} (x : Fin r → Datum) : Prop where
  pos : 0 < r
  eq_list : d = .list (List.ofFn x)
  leaf : ∀ i, (x i).IsLeaf

/-- A **table** of the leaves `x`: at least one row, and at least one leaf in each. -/
structure IsTable (d : Datum) {r c : ℕ} (x : Fin r → Fin c → Datum) : Prop where
  rows_pos : 0 < r
  cols_pos : 0 < c
  eq_list : d = .list (List.ofFn fun i => .list (List.ofFn (x i)))
  leaf : ∀ i j, (x i j).IsLeaf

section Leaves

variable {d : Datum} {items : List Datum}

/-- **Every leaf is converted** to the double that it stands for. -/
theorem IsLeaf.toEntry_eq (h : d.IsLeaf) : d.toEntry = .ok d.entry := by
  cases h with
  | null | bool | real => rfl
  | int n hn => exact realOfInt_eq_ok_iff.mpr ⟨hn, rfl⟩

theorem mapM_toEntry_of_isLeaf (h : ∀ d ∈ items, d.IsLeaf) :
    items.mapM toEntry = .ok (items.map entry) := by
  induction items with
  | nil => rfl
  | cons d rest ih =>
    rw [List.mapM_cons, (h d List.mem_cons_self).toEntry_eq,
      ih fun e he => h e (List.mem_cons_of_mem d he)]
    rfl

/-- Only what has a double is converted, and a list has none. -/
theorem isLeaf_of_mapM_toEntry (hnest : ∀ d ∈ items, d.IsNest) {ys : List Float}
    (h : items.mapM toEntry = .ok ys) : ∀ d ∈ items, d.IsLeaf := by
  induction items generalizing ys with
  | nil => exact fun d hd => nomatch hd
  | cons d rest ih =>
    rw [List.mapM_cons] at h
    rcases hd : d.toEntry with cause | y
    · rw [hd] at h
      cases h
    rcases hrest : rest.mapM toEntry with cause | ys'
    · rw [hd, hrest] at h
      cases h
    have hleaf : d.IsLeaf := by
      cases hnest d List.mem_cons_self with
      | leaf hleaf => exact hleaf
      | list => cases hd
    exact List.forall_mem_cons.mpr ⟨hleaf,
      ih (fun e he => hnest e (List.mem_cons_of_mem d he)) hrest⟩

theorem leavesOfAll_eq (items : List Datum) : leavesOfAll items = (items.map leaves).flatten := by
  induction items with
  | nil => rw [leavesOfAll, List.map_nil, List.flatten_nil]
  | cons d rest ih => rw [leavesOfAll, ih, List.map_cons, List.flatten_cons]

theorem IsLeaf.leaves_eq (h : d.IsLeaf) : d.leaves = [d] := by cases h <;> rfl

/-- The leaves of a list of leaves are its items. -/
theorem leaves_list_of_isLeaf (h : ∀ d ∈ items, d.IsLeaf) : (list items).leaves = items := by
  rw [leaves, leavesOfAll_eq, List.map_congr_left fun d hd => (h d hd).leaves_eq]
  exact List.flatMap_singleton' items

/-- **The leaves of a nest** are leaves. -/
theorem IsNest.isLeaf_of_mem_leaves (hd : d.IsNest) : ∀ e ∈ d.leaves, e.IsLeaf := by
  induction hd with
  | leaf h =>
    intro e he
    rw [h.leaves_eq, List.mem_singleton] at he
    exact he ▸ h
  | list h ih =>
    intro e he
    rw [leaves, leavesOfAll_eq, List.mem_flatten] at he
    obtain ⟨_, hmem, he⟩ := he
    obtain ⟨d, hd, rfl⟩ := List.mem_map.mp hmem
    exact ih d hd e he

end Leaves

/-! ## (2) Extents -/

section Extents

variable {d : Datum} {items : List Datum} {inner extent : List Nat}

theorem IsLeaf.extent?_eq (h : d.IsLeaf) : d.extent? = some [] := by cases h <;> rfl

theorem allOfExtent_iff : allOfExtent inner items = true ↔ ∀ d ∈ items, d.extent? = some inner := by
  induction items with
  | nil => exact iff_of_true rfl fun d hd => nomatch hd
  | cons d rest ih => rw [allOfExtent, Bool.and_eq_true, beq_iff_eq, ih, List.forall_mem_cons]

/-- **The extent of a list** that is not empty: all items have one extent. -/
theorem extent?_list_iff (hitems : items ≠ []) :
    (list items).extent? = some extent ↔
      ∃ inner, (∀ d ∈ items, d.extent? = some inner) ∧ extent = items.length :: inner := by
  cases items with
  | nil => exact absurd rfl hitems
  | cons d rest =>
    rw [extent?]
    rcases hd : d.extent? with _ | inner
    · refine iff_of_false nofun ?_
      rintro ⟨inner, hinner, -⟩
      rw [hinner d List.mem_cons_self] at hd
      cases hd
    · show (if allOfExtent inner rest = true then some ((rest.length + 1) :: inner) else none) =
          some extent ↔ _
      constructor
      · intro h
        by_cases hrest : allOfExtent inner rest = true
        · rw [if_pos hrest] at h
          exact ⟨inner, List.forall_mem_cons.mpr ⟨hd, allOfExtent_iff.mp hrest⟩,
            (Option.some.inj h).symm⟩
        · rw [if_neg hrest] at h
          cases h
      · rintro ⟨inner', hinner', rfl⟩
        obtain ⟨hd', hrest⟩ := List.forall_mem_cons.mp hinner'
        obtain rfl := Option.some.inj (hd.symm.trans hd')
        rw [if_pos (allOfExtent_iff.mpr hrest)]
        rfl

example : (list [.list [], .list []]).extent? = some [2, 0] := rfl

example : (list [.int 1, .list [.int 2]]).extent? = none := rfl

/-- A nest with no lengths is a leaf. -/
theorem IsNest.isLeaf_of_extent? (hd : d.IsNest) (h : d.extent? = some []) : d.IsLeaf := by
  cases hd with
  | leaf hleaf => exact hleaf
  | @list items hitems =>
    by_cases hempty : items = []
    · subst hempty
      cases h
    · obtain ⟨inner, -, hextent⟩ := (extent?_list_iff hempty).mp h
      cases hextent

/-- A nest with lengths is a list; if the first is above zero then all items have the others. -/
theorem IsNest.exists_list_of_extent? {n : ℕ} (hd : d.IsNest) (h : d.extent? = some (n :: inner))
    (hn : 0 < n ∨ inner ≠ []) :
    ∃ x : Fin n → Datum, 0 < n ∧ d = .list (List.ofFn x) ∧ ∀ i,
      (x i).IsNest ∧ (x i).extent? = some inner := by
  cases hd with
  | leaf hleaf =>
    rw [hleaf.extent?_eq] at h
    cases h
  | @list items hitems =>
    by_cases hempty : items = []
    · -- the empty list has the length zero and no others
      subst hempty
      obtain ⟨rfl, rfl⟩ := List.cons.inj (Option.some.inj h)
      exact absurd rfl (hn.resolve_left (Nat.lt_irrefl 0))
    · obtain ⟨inner', hinner, hextent⟩ := (extent?_list_iff hempty).mp h
      obtain ⟨rfl, rfl⟩ := List.cons.inj hextent
      refine ⟨items.get, List.length_pos_iff.mpr hempty,
        congrArg Datum.list (List.ofFn_get items).symm, fun i => ?_⟩
      exact ⟨hitems _ (List.get_mem items i), hinner _ (List.get_mem items i)⟩

/-- **A nest of one length** is a flat list. -/
theorem IsNest.exists_isFlat {n : ℕ} (hd : d.IsNest) (h : d.extent? = some [n]) (hn : 0 < n) :
    ∃ x : Fin n → Datum, d.IsFlat x := by
  obtain ⟨x, -, hlist, hx⟩ := hd.exists_list_of_extent? h (.inl hn)
  exact ⟨x, hn, hlist, fun i => (hx i).1.isLeaf_of_extent? (hx i).2⟩

/-- **A nest of two lengths** is a table. -/
theorem IsNest.exists_isTable {r c : ℕ} (hd : d.IsNest) (h : d.extent? = some [r, c]) (hc : 0 < c) :
    ∃ x : Fin r → Fin c → Datum, d.IsTable x := by
  obtain ⟨rows, hr, hlist, hrows⟩ := hd.exists_list_of_extent? h (.inr (List.cons_ne_nil c []))
  choose x hx using fun i => (hrows i).1.exists_isFlat (hrows i).2 hc
  refine ⟨x, hr, hc, ?_, fun i => (hx i).leaf⟩
  rw [hlist]
  exact congrArg (Datum.list ∘ List.ofFn) (funext fun i => (hx i).eq_list)

end Extents

section Shapes

variable {d : Datum} {r c : ℕ}

theorem IsFlat.extent?_eq {x : Fin r → Datum} (h : d.IsFlat x) : d.extent? = some [r] := by
  obtain ⟨hr, rfl, hleaf⟩ := h
  have hne : List.ofFn x ≠ [] := List.ofFn_eq_nil_iff.not.mpr (Nat.ne_of_gt hr)
  rw [extent?_list_iff hne]
  exact ⟨[], List.forall_mem_ofFn_iff.mpr fun i => (hleaf i).extent?_eq, by rw [List.length_ofFn]⟩

theorem IsTable.extent?_eq {x : Fin r → Fin c → Datum} (h : d.IsTable x) :
    d.extent? = some [r, c] := by
  obtain ⟨hr, hc, rfl, hleaf⟩ := h
  have hne : (List.ofFn fun i => list (List.ofFn (x i))) ≠ [] :=
    List.ofFn_eq_nil_iff.not.mpr (Nat.ne_of_gt hr)
  have hrow (i : Fin r) : (list (List.ofFn (x i))).IsFlat (x i) := ⟨hc, rfl, hleaf i⟩
  rw [extent?_list_iff hne]
  exact ⟨[c], List.forall_mem_ofFn_iff.mpr fun i => (hrow i).extent?_eq, by rw [List.length_ofFn]⟩

theorem IsTable.isNest {x : Fin r → Fin c → Datum} (h : d.IsTable x) : d.IsNest := by
  rw [h.eq_list]
  refine .list (List.forall_mem_ofFn_iff.mpr fun i =>
    .list (List.forall_mem_ofFn_iff.mpr fun j => ?_))
  exact .leaf (h.leaf i j)

theorem IsFlat.leaves_eq {x : Fin r → Datum} (h : d.IsFlat x) : d.leaves = List.ofFn x := by
  rw [h.eq_list]
  exact leaves_list_of_isLeaf (List.forall_mem_ofFn_iff.mpr h.leaf)

theorem IsTable.leaves_eq {x : Fin r → Fin c → Datum} (h : d.IsTable x) :
    d.leaves = (List.ofFn fun i => List.ofFn (x i)).flatten := by
  rw [h.eq_list, leaves, leavesOfAll_eq, List.map_ofFn]
  refine congrArg (fun rows => (List.ofFn rows).flatten) (funext fun i => ?_)
  exact leaves_list_of_isLeaf (List.forall_mem_ofFn_iff.mpr (h.leaf i))

end Shapes

end Datum

/-! ## (3) Matrices -/

namespace DenseMatrix

section Lists

variable {S : Type} [Scalar S] {r c : ℕ} (p : Precision)

/-- The matrix of the entries of a list, where all of them are known. -/
theorem ofList_eq_ok (hr : 0 < r) (hc : 0 < c) {ys : List S} {y : Fin r → Fin c → S}
    (hget : ∀ (i : Fin r) (j : Fin c), ys[(i * c + j : ℕ)]? = some (y i j)) :
    ofList p r c ys = .ok (ofFn p hr hc y) := by
  have hentry (i : Fin r) (j : Fin c) : ys.toArray.getD (i * c + j) Scalar.zero = y i j := by
    rw [Array.getD_eq_getD_getElem?, List.getElem?_toArray, hget, Option.getD_some]
  rw [ofList, dif_pos ⟨hr, hc⟩]
  exact congrArg (fun f => Except.ok (ofFn p hr hc f)) (funext fun i => funext fun j => hentry i j)

/-- Rows one after the other. -/
theorem ofList_flatten (hr : 0 < r) (hc : 0 < c) (y : Fin r → Fin c → S) :
    ofList p r c (List.ofFn fun i => List.ofFn (y i)).flatten = .ok (ofFn p hr hc y) := by
  have hindex (i : Fin r) (j : Fin c) (h : (i * c + j : ℕ) < r * c) :
      (⟨i * c + j, h⟩ : Fin (r * c)) = i.mkDivMod j :=
    Fin.ext (congrArg (· + (j : ℕ)) (Nat.mul_comm (i : ℕ) c))
  have hrows : (List.ofFn fun i => List.ofFn (y i)).flatten =
      List.ofFn fun k : Fin (r * c) => y k.divNat k.modNat := by
    rw [List.ofFn_mul]
    simp only [hindex, Fin.divNat_mkDivMod, Fin.modNat_mkDivMod]
  refine ofList_eq_ok p hr hc fun i j => ?_
  have hlt : (i * c + j : ℕ) < r * c := by
    rw [Nat.mul_comm (i : ℕ) c]
    exact (i.mkDivMod j).isLt
  rw [hrows, List.getElem?_ofFn, dif_pos hlt, hindex, Fin.divNat_mkDivMod, Fin.modNat_mkDivMod]

/-- A single column. -/
theorem ofList_ofFn (hr : 0 < r) (y : Fin r → S) :
    ofList p r 1 (List.ofFn y) = .ok (ofFn p hr Nat.one_pos fun i _ => y i) := by
  refine ofList_eq_ok p hr Nat.one_pos fun i j => ?_
  have hindex : (i * 1 + j : ℕ) = i := by omega
  rw [hindex, List.getElem?_ofFn, dif_pos i.isLt]

end Lists

/-! ### Data -/

variable {d : Datum} {p : Precision} {r c : ℕ}

/-- A flat list becomes a column. -/
theorem ofDatum_of_isFlat {x : Fin r → Datum} (h : d.IsFlat x) :
    ofDatum p d = .ok (ofFn p h.pos Nat.one_pos fun i _ => (x i).entry) := by
  have hentries : d.leaves.mapM Datum.toEntry = .ok (List.ofFn fun i => (x i).entry) := by
    rw [h.leaves_eq, Datum.mapM_toEntry_of_isLeaf (List.forall_mem_ofFn_iff.mpr h.leaf),
      List.map_ofFn]
    rfl
  rw [ofDatum, h.extent?_eq, hentries]
  exact ofList_ofFn p h.pos fun i => (x i).entry

/-- A table becomes a matrix with its rows. -/
theorem ofDatum_of_isTable {x : Fin r → Fin c → Datum} (h : d.IsTable x) :
    ofDatum p d = .ok (ofFn p h.rows_pos h.cols_pos fun i j => (x i j).entry) := by
  have hentries : d.leaves.mapM Datum.toEntry =
      .ok (List.ofFn fun i => List.ofFn fun j => (x i j).entry).flatten := by
    rw [Datum.mapM_toEntry_of_isLeaf h.isNest.isLeaf_of_mem_leaves, h.leaves_eq, List.map_flatten,
      List.map_ofFn]
    simp only [Function.comp_def, List.map_ofFn]
  rw [ofDatum, h.extent?_eq, hentries]
  exact ofList_flatten p h.rows_pos h.cols_pos fun i j => (x i j).entry

/-- **Every other nest is refused** as a wrong value. -/
theorem ofDatum_cases (hd : d.IsNest) (p : Precision) :
    (∃ (r : ℕ) (x : Fin r → Datum), d.IsFlat x) ∨
      (∃ (r c : ℕ) (x : Fin r → Fin c → Datum), d.IsTable x) ∨
      ∃ cause, cause.kind = .value ∧ ofDatum p d = .error cause := by
  have hentries := Datum.mapM_toEntry_of_isLeaf hd.isLeaf_of_mem_leaves
  generalize d.leaves.map Datum.entry = ys at hentries
  rcases hextent : d.extent? with _ | extent
  · -- the lengths differ somewhere
    exact .inr (.inr ⟨.badValue, rfl, by rw [ofDatum, hextent]; rfl⟩)
  by_cases hdepth : extent.length > maxDepth
  · refine .inr (.inr ⟨.badValue, rfl, ?_⟩)
    simp only [ofDatum, hextent, hdepth, if_true]
    rfl
  -- depth and size are judged last
  match extent with
  | [] =>
    -- a bare leaf
    refine .inr (.inr ⟨.depth 0, rfl, ?_⟩)
    rw [ofDatum, hextent, hentries]
    rfl
  | [n] =>
    rcases Nat.eq_zero_or_pos n with rfl | hn
    · -- the empty list
      refine .inr (.inr ⟨.emptyDimension, rfl, ?_⟩)
      rw [ofDatum, hextent, hentries]
      rfl
    · exact .inl ⟨n, hd.exists_isFlat hextent hn⟩
  | [r, c] =>
    rcases Nat.eq_zero_or_pos c with rfl | hc
    · -- rows that are all empty
      refine .inr (.inr ⟨.emptyDimension, rfl, ?_⟩)
      rw [ofDatum, hextent, hentries]
      exact dif_neg fun h => absurd h.2 (Nat.lt_irrefl 0)
    · exact .inr (.inl ⟨r, c, hd.exists_isTable hextent hc⟩)
  | a :: b :: c :: rest =>
    refine .inr (.inr ⟨.depth (a :: b :: c :: rest).length, rfl, ?_⟩)
    simp only [ofDatum, hextent, hdepth, if_false, hentries]
    rfl

/-! ### Columns -/

theorem vectorOfDatum_list (p : Precision) (items : List Datum) :
    vectorOfDatum p (.list items) = items.mapM Datum.toEntry >>= column p := rfl

/-- A flat list becomes the same column either way. -/
theorem vectorOfDatum_of_isFlat {x : Fin r → Datum} (h : d.IsFlat x) (p : Precision) :
    vectorOfDatum p d = .ok (ofFn p h.pos Nat.one_pos fun i _ => (x i).entry) := by
  obtain ⟨hr, rfl, hleaf⟩ := h
  have hentries := Datum.mapM_toEntry_of_isLeaf (List.forall_mem_ofFn_iff.mpr hleaf)
  rw [vectorOfDatum_list, hentries, List.map_ofFn]
  show ofList p (List.ofFn (Datum.entry ∘ x)).length 1 (List.ofFn (Datum.entry ∘ x)) = _
  rw [List.length_ofFn]
  exact ofList_ofFn p hr fun i => (x i).entry

/-- **Only flat lists become columns.** -/
theorem exists_isFlat_of_vectorOfDatum (hd : d.IsNest) {m : DenseMatrix Float}
    (h : vectorOfDatum p d = .ok m) : ∃ (r : ℕ) (x : Fin r → Datum), d.IsFlat x := by
  cases hd with
  | leaf hleaf =>
    -- a leaf cannot be gone through
    cases hleaf <;> cases h
  | @list items hitems =>
    rw [vectorOfDatum_list] at h
    rcases hentries : items.mapM Datum.toEntry with cause | ys
    · rw [hentries] at h
      cases h
    have hleaf := Datum.isLeaf_of_mapM_toEntry hitems hentries
    rcases Nat.eq_zero_or_pos items.length with hempty | hpos
    · rw [List.length_eq_zero_iff] at hempty
      subst hempty
      cases h
    · exact ⟨items.length, items.get, hpos, congrArg Datum.list (List.ofFn_get items).symm,
        fun i => hleaf _ (List.get_mem items i)⟩

end DenseMatrix

end NewtonRaphson
