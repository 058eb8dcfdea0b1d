import NewtonRaphson.Proofs.Session.Runs

/-! # What holds throughout a session

Matrices are built and overwritten in many ways: by commands, by searches and by differences, the
last two with functions of the caller. None of them ever changes the precision or the shape of a
matrix, and none leaves an entry that does not belong to the precision of its matrix.

* **`DenseMatrix.WellFormed`** — a matrix has rows and columns, an entry for each place, one of the
  two precisions, and entries that this represents.
* **`World.Evolves w w'`** — every matrix keeps its precision and shape, and a sound world stays
  sound.
* **`Session.Reaches w w'`** — what a program may come to that carries out steps of a session,
  searches and differences, with functions that are programs as well.
* **`Session.wellFormed_of_reaches`** — every matrix that a program leaves is well-formed, the
  settings are valid, no matrix ever changes its precision or shape, and results have the precision
  of their operands. -/

namespace NewtonRaphson

open World (Within isFrame_within)

/-- There are two names of precisions. -/
theorem Precision.name_eq (p : Precision) : p.name = "float32" ∨ p.name = "float64" := by
  cases p with
  | single => exact .inl rfl
  | double => exact .inr rfl

/-- A matrix is **well-formed**: it has rows, columns and an entry for each place, its precision is
one of the two, and its entries are numbers of this precision. -/
structure DenseMatrix.WellFormed (m : DenseMatrix Float) : Prop where
  one_le_rows : 1 ≤ m.rows
  one_le_cols : 1 ≤ m.cols
  length_entries : m.entries.length = m.rows * m.cols
  name_precision : m.precision.name = "float32" ∨ m.precision.name = "float64"
  represents : ∀ x ∈ m.entries, m.precision.Represents x

/-- A grid has an entry for each place. -/
theorem Grid.length_entries {S : Type} {r c : Nat} (a : Grid S r c) : a.entries.length = r * c := by
  have hrow : (List.length ∘ Vector.toList : Vector S c → Nat) = fun _ => c :=
    funext fun row => row.length_toList
  rw [entries, toLists, List.length_flatten, List.map_map, hrow, List.map_const',
    List.sum_replicate, Vector.length_toList, smul_eq_mul]

/-- All but the entries of a matrix is well-formed by construction. -/
theorem DenseMatrix.Representable.wellFormed {m : DenseMatrix Float} (h : m.Representable) :
    m.WellFormed where
  one_le_rows := m.rows_pos
  one_le_cols := m.cols_pos
  length_entries := m.grid.length_entries
  name_precision := m.precision.name_eq
  represents x hx := by
    obtain ⟨i, j, rfl⟩ := Grid.exists_get_of_mem_entries hx
    exact h i j

namespace World

variable {w w' w'' : World Float Caller}

/-- A world is **sound**: the entries of every matrix belong to its precision, and the singularity
factor is above zero. -/
structure Sound (w : World Float Caller) : Prop where
  representable : w.store.Representable
  factor_pos : Scalar.lt Scalar.zero w.settings.factor = true

/-- How a world may **evolve**: every matrix keeps its precision and shape, and soundness is not
lost. -/
structure Evolves (w w' : World Float Caller) : Prop where
  follows : ∀ r m, w.store.get? r = some m → ∃ m', w'.store.get? r = some m' ∧ m.Follows m'
  sound : w.Sound → w'.Sound

theorem Evolves.trans (h : Evolves w w') (h' : Evolves w' w'') : Evolves w w'' where
  follows r m hm := by
    obtain ⟨m', hm', hfollows⟩ := h.follows r m hm
    obtain ⟨m'', hm'', hfollows'⟩ := h'.follows r m' hm'
    exact ⟨m'', hm'', hfollows.trans hfollows'⟩
  sound hw := h'.sound (h.sound hw)

/-- A world whose matrices are the same and whose factor stays above zero has evolved. -/
theorem Evolves.of_eq (hstore : w'.store = w.store)
    (hfactor : Scalar.lt Scalar.zero w.settings.factor = true →
      Scalar.lt Scalar.zero w'.settings.factor = true) :
    Evolves w w' where
  follows r m hm := ⟨m, by rw [hstore]; exact hm, .refl m⟩
  sound hw := ⟨by rw [hstore]; exact hw.representable, hfactor hw.factor_pos⟩

/-- What stays within a frame has evolved. -/
theorem Within.evolves {touched : Set Ref} (h : Within touched w w') : Evolves w w' where
  follows := h.follows
  sound hw := ⟨h.representable hw.representable, by rw [h.settings]; exact hw.factor_pos⟩

/-- **Evolving is a frame.** -/
theorem isFrame_evolves : World.IsFrame Evolves where
  refl _ := .of_eq rfl id
  trans := .trans
  journal _ _ := .of_eq rfl id

/-- A matrix may be added whose entries belong to its precision. -/
theorem evolves_add {m : DenseMatrix Float} (hm : m.Representable) (w : World Float Caller) :
    Evolves w { w with store := w.store.add m } := by
  have hwithin : Within ∅ w { w with store := w.store.add m } := within_add fun _ => hm
  exact hwithin.evolves

/-- **A point may move** wherever it is. -/
theorem letsMove_evolves (x : Value) : Newton.LetsMove Evolves x := by
  intro w r g h point way hr hmoved
  have hwithin : Newton.LetsMove (Within Set.univ) x := letsMove_within fun _ _ => Set.mem_univ _
  exact (hwithin w r g h point way hr hmoved).evolves

end World

open World (Evolves isFrame_evolves evolves_add)

namespace Differences

variable {f : Objective Float Caller} (hf : ∀ r, (f r).Stays Evolves)
include hf

/-- The value of an objective at a new point lets the world evolve if the objective does. -/
theorem stays_valueAt_evolves (p : Precision) (n : Nat) (hn : 0 < n) (x : Vector Float n) :
    (valueAt f p hn x).Stays Evolves := by
  have hpoint : (.ofFn p hn Nat.one_pos fun i _ => x.get i : DenseMatrix Float).Representable :=
    (DenseMatrix.faithful_ofFn p hn Nat.one_pos _).representable
  exact Action.Stays.bind isFrame_evolves (evolves_add hpoint) hf

/-- **Differences whose result is kept** let the world evolve if their objective does. -/
theorem stays_kept_evolves (width : Except Fault (Width Float)) (x : Value) :
    (gradient f width x >>= Action.add).Stays Evolves ∧
      (hessian f width x >>= Action.add).Stays Evolves := by
  have hvalue := stays_valueAt_evolves hf
  have hgradient := stays_gradient_of_valueAt isFrame_evolves hvalue width x
  have hhessian := stays_hessian_of_valueAt isFrame_evolves hvalue width x
  exact ⟨hgradient.bind_of_yields isFrame_evolves (yields_gradient f width x) fun _ => evolves_add,
    hhessian.bind_of_yields isFrame_evolves (yields_hessian f width x) fun _ => evolves_add⟩

end Differences

namespace Session

variable {w w' : World Float Caller}

/-! ## (1) Steps of a session -/

/-- Naming a matrix changes no matrix and no setting. -/
theorem evolves_binding (target : Option String) (r : Ref) (w : World Float Caller) :
    Evolves w (binding target r w) := by
  refine .of_eq (store_binding target r w) ?_
  cases target <;> exact id

/-- **Every command** that is no block lets the world evolve. -/
theorem Effect.evolves {c : Command} {out : Except Fault Outcome × World Float Caller}
    (h : Effect c w out) : Evolves w out.2 := by
  cases h with
  | refused h => exact h.evolves
  | told _ h => exact h.evolves
  | settled _ hfactor => exact .of_eq rfl hfactor
  | delivered hdelivers ho h hm hmatches => exact (h.add hm).evolves.trans (evolves_binding _ _ _)
  | aliased hc hsource ho => exact evolves_binding _ _ _
  | overwritten _ _ hr h => exact h.evolves
  | interrupted hc hr hlimits hafter h => exact h.evolves

/-- **Every step** of a session lets the world evolve. -/
theorem Step.evolves {target : Option Ref} (h : Step target w w') : Evolves w w' := by
  cases h with
  | command fuel c hc => exact (run_effect fuel hc w).evolves
  | precision p => exact .of_eq rfl id
  | taken => exact .of_eq rfl id
  | step hdf hddf => exact (within_step hdf hddf w).evolves
  | iteration hdf hddf hcallback fuel => exact (within_iteration hdf hddf hcallback fuel w).evolves

/-- A result has the precision of the operands. -/
theorem Effect.matches {c : Command} {o : Outcome} (h : Effect c w (.ok o, w'))
    {m : DenseMatrix Float} (hm : o.matrix? = some m) : c.Matches w m := by
  generalize hout : ((.ok o, w') : Except Fault Outcome × World Float Caller) = out at h
  cases h with
  | refused h => cases hout
  | told htells h => exact matches_of_no_operands htells.operands_eq m
  | settled htells hfactor => exact matches_of_no_operands htells.operands_eq m
  | delivered hdelivers ho h hn hmatches =>
    cases hout
    rw [ho] at hm
    cases hm
    exact hmatches
  | aliased hc hsource ho =>
    cases hout
    subst hc
    rw [ho] at hm
    cases hm
    exact matches_of_register rfl hsource rfl
  | overwritten hdelivers hnamed hr h ho hmatches =>
    cases hout
    exact hmatches m hm
  | interrupted hc hr hlimits hafter h =>
    -- such an outcome tells a point but has no result
    cases hout
    cases hm

/-! ## (2) Programs -/

/-- **What a program may come to**: it carries out steps of a session, Newton steps, iterations and
differences one after the other. The functions that it hands to these are programs as well. -/
inductive Reaches : World Float Caller → World Float Caller → Prop
  /-- Matrices and settings are left alone. -/
  | silent {w w' : World Float Caller} (hstore : w'.store = w.store)
      (hsettings : w'.settings = w.settings) :
      Reaches w w'
  /-- One thing is done after the other. -/
  | trans {w w' w'' : World Float Caller} (h : Reaches w w') (h' : Reaches w' w'') : Reaches w w''
  /-- A step of a session. -/
  | session {target : Option Ref} {w w' : World Float Caller} (h : Step target w w') : Reaches w w'
  /-- A Newton step. -/
  | step {df ddf : Evaluator Float Caller} {x : Value} (hdf : ∀ v, Reaches v (df x v).2)
      (hddf : ∀ v, Reaches v (ddf x v).2) (w : World Float Caller) :
      Reaches w (Newton.step df ddf x w).2
  /-- An iteration. -/
  | iteration {df ddf : Evaluator Float Caller} {limits : Limits Float}
      {callback : Option (Callback Float Caller)} {x : Value} (hdf : ∀ v, Reaches v (df x v).2)
      (hddf : ∀ v, Reaches v (ddf x v).2)
      (hcallback : ∀ report ∈ callback, ∀ n status v,
        Reaches v (report n x status v).2) (fuel : Nat)
      (w : World Float Caller) : Reaches w (Iteration.run fuel df ddf limits callback x w).2
  /-- A gradient by differences, which is kept as a new matrix. -/
  | gradient {f : Objective Float Caller} (hf : ∀ r v, Reaches v (f r v).2)
      (width : Except Fault (Width Float)) (x : Value) (w : World Float Caller) :
      Reaches w ((Differences.gradient f width x >>= Action.add) w).2
  /-- A Hessian by differences. -/
  | hessian {f : Objective Float Caller} (hf : ∀ r v, Reaches v (f r v).2)
      (width : Except Fault (Width Float)) (x : Value) (w : World Float Caller) :
      Reaches w ((Differences.hessian f width x >>= Action.add) w).2

/-- **Every program** lets the world evolve, by induction on what it does. A search and differences
evolve because the functions that they were handed do. -/
theorem Reaches.evolves (h : Reaches w w') : Evolves w w' := by
  induction h with
  | silent hstore hsettings => exact .of_eq hstore fun hfactor => by rw [hsettings]; exact hfactor
  | trans _ _ ih ih' => exact ih.trans ih'
  | session h => exact h.evolves
  | @step df ddf x _ _ w ihf ihff =>
    exact Newton.stays_step isFrame_evolves ihf ihff (World.letsMove_evolves x) w
  | @iteration df ddf limits callback x _ _ _ fuel w ihf ihff ihcallback =>
    exact Iteration.stays_run isFrame_evolves ihf ihff (World.letsMove_evolves x) ihcallback fuel w
  | gradient _ width x w ih => exact (Differences.stays_kept_evolves ih width x).1 w
  | hessian _ width x w ih => exact (Differences.stays_kept_evolves ih width x).2 w

/-- A run of steps is a program. -/
theorem Runs.reaches {touched : Set Ref} (h : Runs touched w w') : Reaches w w' := by
  induction h with
  | refl => exact .silent rfl rfl
  | tail _ hstep ih =>
    obtain ⟨target, hstep, -⟩ := hstep
    exact ih.trans (.session hstep)

/-- At the start there are no matrices, and the factor is one. -/
theorem sound_initial : World.initial.Sound where
  representable := nofun
  factor_pos := by decide +kernel

/-- **What holds throughout a session**, whatever a program did since the start, and whichever of
its steps were refused. Every matrix is well-formed, and the settings are one of the two precisions
and a factor above zero. Whatever is done next, also a whole session, no matrix changes its
precision or shape, and all this holds again. The result of a command has the precision of every
matrix among its operands, and what differences return, for any objective and any width, is
well-formed and has the precision of their point. -/
theorem wellFormed_of_reaches (hw : Reaches World.initial w) :
    (∀ r m, w.store.get? r = some m → m.WellFormed) ∧
    (w.settings.precision.name = "float32" ∨ w.settings.precision.name = "float64") ∧
    Scalar.lt Scalar.zero w.settings.factor = true ∧
    (∀ w', Reaches w w' → ∀ r m, w.store.get? r = some m →
      ∃ m', w'.store.get? r = some m' ∧ m'.precision = m.precision ∧ m'.shape = m.shape) ∧
    (∀ fuel c, Reaches w (run fuel c w).2) ∧
    (∀ fuel cs, Reaches w (runAll fuel cs w).2) ∧
    (∀ fuel c o w' m a, c.isBlock = false → run fuel c w = (.ok o, w') → o.matrix? = some m →
      c.Uses w a → m.precision = a.precision) ∧
    ∀ (f : Objective Float Caller) (width : Except Fault (Width Float)) r m w',
      Differences.gradient f width (.matrix r) w = (.ok m, w') ∨
        Differences.hessian f width (.matrix r) w = (.ok m, w') →
      m.precision = (w.store.get r).precision ∧ m.WellFormed := by
  have hsound : w.Sound := hw.evolves.sound sound_initial
  refine ⟨fun r m hm => (hsound.representable r m hm).wellFormed, ?_, hsound.factor_pos,
    ?_, ?_, ?_, ?_, ?_⟩
  · exact w.settings.precision.name_eq
  · intro w' h r m hm
    obtain ⟨m', hm', hfollows⟩ := h.evolves.follows r m hm
    exact ⟨m', hm', hfollows.precision_eq, hfollows.shape_eq⟩
  · exact fun fuel c => (runs_run fuel c w).reaches
  · exact fun fuel cs => (runs_runAll fuel cs w).reaches
  · intro fuel c o w' m a hc hrun hm ha
    have heffect := run_effect fuel hc w
    rw [hrun] at heffect
    exact heffect.matches hm a ha
  · intro f width r m w' h
    obtain ⟨q, hq, hm⟩ : ∃ q, Value.matrix r = .matrix q ∧ m.Faithful (w.store.get q).precision :=
      h.elim Differences.faithful_of_gradient Differences.faithful_of_hessian
    cases hq
    exact ⟨hm.precision_eq, hm.representable.wellFormed⟩

/-! ### A tenth in single precision -/

/-- A session that writes a tenth into a matrix of single precision and adds the matrix to
itself. -/
def doubling : List Command :=
  [.zeros (some "a") (.int 1) (.int 2) (.fixed .single),
    .setEntry "a" (.tuple [.int 0, .int 1]) (.real 0.1),
    .combine .add (some "b") (.register "a") (.register "a")]

/-- The sum is a well-formed matrix of single precision. -/
theorem wellFormed_of_doubling :
    Reaches World.initial (runAll 0 doubling World.initial).2 ∧
      ∃ m, (runAll 0 doubling World.initial).2.store.get? 1 = some m ∧ m.WellFormed ∧
      m.precision = .single := by
  have hw : Reaches World.initial (runAll 0 doubling World.initial).2 :=
    (runs_runAll 0 doubling World.initial).reaches
  obtain ⟨hmatrices, -⟩ := wellFormed_of_reaches hw
  have hprecision : ((runAll 0 doubling World.initial).2.store.get? 1).map (fun m => m.precision) =
      some .single := by
    decide +kernel
  obtain ⟨m, hm, hsingle⟩ := Option.map_eq_some_iff.mp hprecision
  exact ⟨hw, m, hm, hmatrices 1 m hm, hsingle⟩

end Session

end NewtonRaphson
