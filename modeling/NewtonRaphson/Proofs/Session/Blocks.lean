import NewtonRaphson.Proofs.Session.Runs

/-! # Blocks give back the precision

A block of commands has a precision of its own. What its commands do to the precision ends with the
block, however it ends; what they do to anything else stays.

* **`Command.precision?`** and **`Command.factors`** — the precision that a command sets for those
  behind it on its own level, and the factors that it sets on any level.
* **`Session.settings_run`** — the settings after a command, by induction on the blocks in it: the
  last precision of the level and the last factor of all levels.
* **`Session.exists_runAll_append`** — what commands do does not depend on those behind them.
* **`Session.precision_of_choice`** — a matrix is built in the precision that is in force there.
* **`Session.run_within_restores`** — what a block restores, what it does not, and what is in force
  inside. -/

namespace NewtonRaphson

/-- The last of two lists together is the last of the second, or else of the first. -/
theorem getLastD_append {α : Type} (xs ys : List α) (x : α) :
    (xs ++ ys).getLastD x = ys.getLastD (xs.getLastD x) := by
  simp only [List.getLastD_eq_getLast?, List.getLast?_append, Option.getD_or]

namespace Command

/-! ## (1) What commands do to the settings -/

/-- Whether a command leaves its block. -/
def isLeave : Command → Bool
  | leave => true
  | _ => false

theorem isLeave_eq_false_iff {c : Command} : c.isLeave = false ↔ c ≠ leave := by
  cases c with
  | leave => exact ⟨nofun, fun h => absurd rfl h⟩
  | _ => exact ⟨fun _ => nofun, fun _ => rfl⟩

/-- The precision that a command sets for the commands behind it. A block sets none. -/
def precision? : Command → Option Precision
  | setPrecision request | restart request => request.resolve.toOption
  | _ => none

/-- The precisions that commands set one after the other, as far as none of them leaves. -/
def precisions (cs : List Command) : List Precision :=
  (cs.takeWhile fun c => !c.isLeave).filterMap precision?

mutual

/-- The factors that a command sets one after the other, those in its blocks included. -/
def factors : Command → List Float
  | setFactor value => value.toSingularityFactor.toOption.toList
  | restart _ => [Scalar.one]
  | within request body =>
    match request.resolve with
    | .ok _ => factorsOf body
    | .error _ => []
  | _ => []

/-- The factors that commands set, as far as none of them leaves. -/
def factorsOf : List Command → List Float
  | [] => []
  | c :: rest => if c.isLeave then [] else c.factors ++ factorsOf rest

end

/-- The choice of a precision that a command builds a matrix with, if it builds one. -/
def choice? : Command → Option PrecisionChoice
  | zeros _ _ _ choice | identity _ _ choice | ofData _ _ choice | vector _ _ choice
  | vectorOf _ _ choice =>
    some choice
  | _ => none

@[simp] theorem precisions_nil : precisions [] = [] := rfl

@[simp] theorem factorsOf_nil : factorsOf [] = [] := by rw [factorsOf]

/-- Nothing behind a command that leaves sets anything. -/
theorem sets_leave_cons (rest : List Command) :
    precisions (leave :: rest) = [] ∧ factorsOf (leave :: rest) = [] := by
  rw [factorsOf]
  exact ⟨rfl, rfl⟩

theorem precisions_cons {c : Command} (hc : c.isLeave = false) (rest : List Command) :
    precisions (c :: rest) = c.precision?.toList ++ precisions rest := by
  rw [precisions, List.takeWhile_cons_of_pos (by rw [hc]; rfl), precisions]
  cases h : c.precision? with
  | none => rw [List.filterMap_cons_none h]; rfl
  | some p => rw [List.filterMap_cons_some h]; rfl

theorem factorsOf_cons {c : Command} (hc : c.isLeave = false) (rest : List Command) :
    factorsOf (c :: rest) = c.factors ++ factorsOf rest := by
  rw [factorsOf, if_neg (Bool.eq_false_iff.mp hc)]

/-- Commands of which none sets a precision set none together. -/
theorem precisions_of_none {cs : List Command} (h : ∀ c ∈ cs, c.precision? = none) :
    precisions cs = [] :=
  List.filterMap_eq_nil_iff.mpr fun c hc => h c ((List.takeWhile_sublist _).mem hc)

/-- What is no setter and no block sets nothing. -/
theorem sets_nothing {c : Command} (hsets : c.setsSettings = false) (hc : c.isBlock = false) :
    c.precision? = none ∧ c.factors = [] := by
  cases c with
  | setPrecision _ | setFactor _ | restart _ => cases hsets
  | within _ _ => cases hc
  | _ => exact ⟨rfl, by simp [factors]⟩

end Command

namespace Session

open Command

variable {fuel : Nat} {c : Command} {w w' : World Float Caller}

theorem settings_binding (target : Option String) (r : Ref) (w : World Float Caller) :
    (binding target r w).settings = w.settings := by
  cases target <;> rfl

/-- A command that is no setter keeps the settings. -/
theorem Effect.settings_eq {out : Except Fault Outcome × World Float Caller} (h : Effect c w out)
    (hsets : c.setsSettings = false) : out.2.settings = w.settings := by
  cases h with
  | refused h => exact h.settings
  | told _ h => exact h.settings
  | settled _ _ hc => exact absurd (hc.symm.trans hsets) nofun
  | delivered _ _ h => exact (settings_binding _ _ _).trans h.settings
  | aliased => exact settings_binding _ _ _
  | overwritten _ _ _ h => exact h.settings
  | interrupted _ _ _ _ h => exact h.settings

/-- The settings after the setters. -/
theorem settings_run_of_setsSettings (fuel : Nat) (hc : c.setsSettings = true)
    (w : World Float Caller) :
    (run fuel c w).2.settings =
      ⟨c.precision?.getD w.settings.precision, c.factors.getLastD w.settings.factor⟩ := by
  cases c with
  | setPrecision request =>
    rw [run, precision?, show (Command.setPrecision request).factors = [] by simp [factors]]
    rcases hp : request.resolve with cause | p <;> rfl
  | setFactor value =>
    rw [run, factors]
    rcases hx : value.toSingularityFactor with cause | x <;> rfl
  | restart request =>
    rw [run, factors, precision?]
    rcases hp : request.resolve with cause | p <;> rfl
  | _ => cases hc

mutual

/-- **The settings after a command**: the precision it sets for those behind it, and the last factor
it sets. -/
theorem settings_run (fuel : Nat) (c : Command) (w : World Float Caller) :
    (run fuel c w).2.settings =
      ⟨c.precision?.getD w.settings.precision, c.factors.getLastD w.settings.factor⟩ := by
  by_cases hsets : c.setsSettings = true
  · exact settings_run_of_setsSettings fuel hsets w
  rw [Bool.not_eq_true] at hsets
  by_cases hc : c.isBlock = false
  · obtain ⟨hprecision, hfactors⟩ := sets_nothing hsets hc
    rw [(run_effect fuel hc w).settings_eq hsets, hprecision, hfactors]
    rfl
  cases c with
  | within request body =>
    rw [factors]
    rcases hp : request.resolve with cause | p
    · rw [run_within_of_error hp]
      rfl
    · obtain ⟨o, hrun⟩ := exists_run_within hp fuel body w
      have hbody := settings_runAll fuel body { w with settings.precision := p }
      -- of what the body leaves, the block takes back the precision only
      rw [hrun]
      exact congrArg (Settings.mk w.settings.precision) (congrArg Settings.factor hbody)
  | _ => exact absurd rfl hc

/-- **The settings after commands**: the last precision that they set on their own level, and the
last factor that they set on any. -/
theorem settings_runAll (fuel : Nat) (cs : List Command) (w : World Float Caller) :
    (runAll fuel cs w).2.settings =
      ⟨(precisions cs).getLastD w.settings.precision,
        (factorsOf cs).getLastD w.settings.factor⟩ := by
  match cs with
  | [] =>
    rw [runAll, factorsOf_nil]
    rfl
  | c :: rest =>
    by_cases hc : c = .leave
    · subst hc
      rw [runAll, (sets_leave_cons rest).1, (sets_leave_cons rest).2]
      rfl
    · have hleave : c.isLeave = false := isLeave_eq_false_iff.mpr hc
      rw [runAll_cons hc, Action.map_apply, settings_runAll fuel rest, precisions_cons hleave,
        factorsOf_cons hleave, getLastD_append, getLastD_append]
      dsimp only
      rw [settings_run fuel c w]
      cases c.precision? <;> rfl

end

/-! ## (2) Commands one after the other -/

/-- Commands are left exactly if one of them leaves. -/
theorem exists_runAll_any (fuel : Nat) (cs : List Command) (w : World Float Caller) :
    ∃ outcomes, (runAll fuel cs w).1 = .ok (outcomes, cs.any isLeave) := by
  induction cs generalizing w with
  | nil =>
    rw [runAll]
    exact ⟨[], rfl⟩
  | cons c rest ih =>
    by_cases hc : c = .leave
    · subst hc
      rw [runAll]
      exact ⟨[], rfl⟩
    · obtain ⟨outcomes, hrest⟩ := ih { (run fuel c w).2 with journal.written := [] }
      have hleave : c.isLeave = false := isLeave_eq_false_iff.mpr hc
      rw [runAll_cons hc, Action.map_apply, hrest, List.any_cons, hleave, Bool.false_or]
      exact ⟨_, rfl⟩

/-- **What commands do does not depend on those behind them**: these go on from what they leave, and
their outcomes come behind. -/
theorem exists_runAll_append {before : List Command} (hbefore : ∀ d ∈ before, d.isLeave = false)
    (fuel : Nat) (rest : List Command) (w : World Float Caller) :
    ∃ earlier, earlier.length = before.length ∧ runAll fuel (before ++ rest) w =
      ((fun later => (earlier ++ later.1, later.2)) <$> runAll fuel rest)
        (runAll fuel before w).2 := by
  induction before generalizing w with
  | nil =>
    refine ⟨[], rfl, ?_⟩
    rw [List.nil_append, runAll.eq_1]
    exact (congrFun (id_map (runAll fuel rest)) w).symm
  | cons d before ih =>
    obtain ⟨hd, hbefore⟩ := List.forall_mem_cons.mp hbefore
    have hne : d ≠ .leave := isLeave_eq_false_iff.mp hd
    obtain ⟨earlier, hlength, hrest⟩ := ih hbefore { (run fuel d w).2 with journal.written := [] }
    refine ⟨(outcomeOf (run fuel d w).1, (run fuel d w).2.journal.written) :: earlier,
      congrArg (· + 1) hlength, ?_⟩
    rw [List.cons_append, runAll_cons hne, runAll_cons hne, Action.map_apply,
      Action.map_apply, hrest, Action.map_apply, Action.map_apply]
    dsimp only
    rw [Functor.map_map]
    rfl

/-! ## (3) Matrices without a precision of their own -/

/-- What is done behind a question is done in the world as it was. -/
theorem exists_of_asks {α β : Type} {a : SessionAction α} (ha : a.Asks) {f : α → SessionAction β}
    {b : β} (h : (a >>= f) w = (.ok b, w')) : ∃ v, a w = (.ok v, w) ∧ f v w = (.ok b, w') := by
  obtain ⟨v, w₁, hv, hf⟩ := Action.bind_eq_ok_iff.mp h
  obtain rfl := ha.eq_of_eq hv
  exact ⟨v, hv, hf⟩

/-- The precision of a delivered matrix is that of the choice if the matrix is built in it. -/
theorem resolve_of_deliver {choice : PrecisionChoice} {p : Precision}
    (hp : Action.resolve choice w = (.ok p, w)) {target : Option String} {n : DenseMatrix Float}
    (hn : n.precision = p) {o : Outcome} (h : deliver target n w = (.ok o, w'))
    {m : DenseMatrix Float} (hm : o.matrix? = some m) :
    choice.resolve w.settings.precision = .ok m.precision := by
  rw [deliver_apply] at h
  cases h
  cases hm
  rw [hn]
  exact congrArg Prod.fst hp

/-- **A matrix is built in the precision that its choice comes to** where it is built. -/
theorem precision_of_choice {choice : PrecisionChoice} (hc : c.choice? = some choice) {o : Outcome}
    (h : run fuel c w = (.ok o, w')) {m : DenseMatrix Float} (hm : o.matrix? = some m) :
    choice.resolve w.settings.precision = .ok m.precision := by
  cases c with
  | zeros target rows cols choice =>
    cases hc
    rw [run] at h
    obtain ⟨rows, -, h⟩ := exists_of_asks (Action.asks_ofExcept _) h
    obtain ⟨cols, -, h⟩ := exists_of_asks (Action.asks_ofExcept _) h
    obtain ⟨p, hp, h⟩ := exists_of_asks (Action.asks_resolve choice) h
    exact resolve_of_deliver hp rfl h hm
  | identity target size choice =>
    cases hc
    rw [run] at h
    obtain ⟨n, -, h⟩ := exists_of_asks (Action.asks_ofExcept _) h
    obtain ⟨p, hp, h⟩ := exists_of_asks (Action.asks_resolve choice) h
    exact resolve_of_deliver hp rfl h hm
  | ofData target data choice =>
    cases hc
    rw [run] at h
    obtain ⟨p, hp, h⟩ := exists_of_asks (Action.asks_resolve choice) h
    obtain ⟨n, hn, h⟩ := exists_of_asks (Action.asks_ofExcept _) h
    exact resolve_of_deliver hp
      (DenseMatrix.faithful_of_ofDatum (congrArg Prod.fst hn)).precision_eq h hm
  | vector target data choice =>
    cases hc
    rw [run] at h
    obtain ⟨entries, -, h⟩ := exists_of_asks (Action.asks_ofExcept _) h
    obtain ⟨p, hp, h⟩ := exists_of_asks (Action.asks_resolve choice) h
    obtain ⟨n, hn, h⟩ := exists_of_asks (Action.asks_ofExcept _) h
    exact resolve_of_deliver hp (DenseMatrix.faithful_of_column (congrArg Prod.fst hn)).precision_eq
      h hm
  | vectorOf target source choice =>
    cases hc
    rw [run] at h
    obtain ⟨a, -, h⟩ := exists_of_asks (asks_matrixOf source) h
    obtain ⟨p, hp, h⟩ := exists_of_asks (Action.asks_resolve choice) h
    obtain ⟨n, hn, h⟩ := exists_of_asks (Action.asks_ofExcept _) h
    exact resolve_of_deliver hp (DenseMatrix.faithful_of_column (congrArg Prod.fst hn)).precision_eq
      h hm
  | _ => cases hc

/-! ## (4) Blocks -/

/-- What a command **meets** in a block of the precision `p` behind the commands `before`, and what
it is told by. -/
structure Meets (fuel : Nat) (p : Precision) (before : List Command) (c : Command)
    (here : World Float Caller) (outcomes : List (Outcome × List (Entry Float))) : Prop where
  /-- It is carried out there, and what becomes of it is told at its place. -/
  outcome : outcomes[before.length]? =
    some (outcomeOf (run fuel c here).1, (run fuel c here).2.journal.written)
  /-- The precision in force is the last one that was set on the level of the block. -/
  precision : here.settings.precision = (precisions before).getLastD p
  /-- It is that of the block as long as none was set there, whatever blocks were entered and
  left. -/
  unset : (∀ d ∈ before, d.precision? = none) → here.settings.precision = p
  /-- A matrix without a precision of its own is built in the one in force. -/
  builds : c.choice? = some .configured → ∀ m, (outcomeOf (run fuel c here).1).matrix? = some m →
    m.precision = here.settings.precision

/-- **A command that is reached** meets the precision that was set last on its level, or else the
one that its block was entered in. -/
theorem meets_of_reached {p : Precision} {before after : List Command}
    {outcomes : List (Outcome × List (Entry Float))} {left : Bool}
    (hbefore : ∀ d ∈ before, d.isLeave = false) (hc : c.isLeave = false)
    (hp : w.settings.precision = p)
    (h : (runAll fuel (before ++ c :: after) w).1 = .ok (outcomes, left)) :
    Meets fuel p before c (runAll fuel before w).2 outcomes := by
  have hne : c ≠ .leave := isLeave_eq_false_iff.mp hc
  have hprecision : (runAll fuel before w).2.settings.precision =
      (precisions before).getLastD p := by
    rw [settings_runAll, hp]
  refine ⟨?_, hprecision, fun hunset => ?_, fun hchoice m hm => ?_⟩
  · obtain ⟨earlier, hlength, happend⟩ := exists_runAll_append hbefore fuel (c :: after) w
    obtain ⟨⟨later, rest⟩, hlater⟩ := exists_runAll fuel after
      { (run fuel c (runAll fuel before w).2).2 with journal.written := [] }
    rw [happend, Action.map_apply, runAll_cons hne, Action.map_apply, hlater] at h
    cases h
    rw [← hlength, List.getElem?_append_right (Nat.le_refl _), Nat.sub_self]
    rfl
  · rw [hprecision, precisions_of_none hunset]
    rfl
  · rcases hrun : run fuel c (runAll fuel before w).2 with ⟨cause | o, w'⟩
    · rw [hrun] at hm
      cases hm
    · rw [hrun] at hm
      exact (Except.ok.inj (precision_of_choice hchoice hrun hm)).symm

/-- **What a block restores, what it does not, and what is in force inside.** Let a block be entered
in any world, with any commands in it: setters, builders, refused commands, further blocks, and one
that leaves it.

If its precision is refused, then the block is, before any of its commands, and nothing is changed.
Otherwise its commands are carried out in the world that differs in the precision alone, and whether
or not they left the block, the world is what they made of it, but for the precision, which is the
one before: the factor is the last one that was set in the block on any level. Each command that is
reached meets the precision of the block until one is set on the same level, also behind blocks that
were entered and left.

So it is of any action that is carried out in a precision, also one that is refused: whatever it did
and however deep in further precisions it was refused, of what it leaves only the precision is taken
back. -/
theorem run_within_restores (fuel : Nat) (request : PrecisionRequest) (body : List Command)
    (w : World Float Caller) :
    (∀ cause, request.resolve = .error cause →
      run fuel (.within request body) w = (.error cause, w)) ∧
    ∀ p, request.resolve = .ok p →
      (∃ outcomes w', runAll fuel body { w with settings.precision := p } =
          (.ok (outcomes, body.any isLeave), w') ∧
        run fuel (.within request body) w =
          (.ok (.block outcomes (body.any isLeave) w.settings.precision),
            { w' with settings.precision := w.settings.precision }) ∧
        w'.settings.factor = (factorsOf body).getLastD w.settings.factor ∧
        ∀ before c after, body = before ++ c :: after → (∀ d ∈ before, d.isLeave = false) →
          c.isLeave = false →
          Meets fuel p before c (runAll fuel before { w with settings.precision := p }).2
            outcomes) ∧
      ∀ (α : Type) (x : SessionAction α) (out : Except Fault α) (w' : World Float Caller),
        x { w with settings.precision := p } = (out, w') →
          Action.inPrecision p x w =
          (out, { w' with settings.precision := w.settings.precision }) := by
  refine ⟨fun cause hcause => run_within_of_error hcause fuel body w, fun p hp => ⟨?_, ?_⟩⟩
  · obtain ⟨outcomes, hout⟩ := exists_runAll_any fuel body { w with settings.precision := p }
    refine ⟨outcomes, _, Prod.ext hout rfl, run_within hp (Prod.ext hout rfl), ?_, ?_⟩
    · rw [settings_runAll]
    · rintro before c after rfl hbefore hc
      exact meets_of_reached hbefore hc rfl hout
  · intro α x out w' hx
    unfold Action.inPrecision
    rw [hx]

/-! ### A block that is left -/

/-- The commands of a block: the factor is set, a block is refused, another one is left, a matrix is
built, the precision is set, and the block is left before the factor is set again. -/
def wandering : List Command :=
  [.setFactor (.int 2), .within (.named "half") [.setFactor (.int 3)],
    .within .absent [.setPrecision (.named "double"), .leave],
    .zeros (some "a") (.int 1) (.int 1) .configured, .setPrecision (.named "double"), .leave,
    .setFactor (.int 5)]

/-- The block is left with the precision from before and the factor two; the matrix was built in the
precision of the block. -/
theorem run_within_restores_of_wandering :
    ∃ outcomes w' m written, run 0 (.within (.named "single") wandering) World.initial =
        (.ok (.block outcomes true .double), w') ∧
      w'.settings.precision = .double ∧ Scalar.eq w'.settings.factor 2.0 = true ∧
      outcomes[3]? = some (.matrix m, written) ∧ m.precision = .single := by
  have hsingle : (PrecisionRequest.named "single").resolve = .ok .single :=
    Action.eq_ok_of_toOption (by decide +kernel)
  have htwo :
      Scalar.eq ((factorsOf wandering).getLastD World.initial.settings.factor) 2.0 = true := by
    decide +kernel
  obtain ⟨-, haccepted⟩ := run_within_restores 0 (.named "single") wandering World.initial
  obtain ⟨⟨outcomes, w', -, hrun, hfactor, hmeets⟩, -⟩ := haccepted .single hsingle
  have hmatrix :=
    hmeets (wandering.take 3) (.zeros (some "a") (.int 1) (.int 1) .configured) (wandering.drop 4)
    rfl (by decide) rfl
  have houtcome (here : World Float Caller) :
      ∃ m, (run 0 (.zeros (some "a") (.int 1) (.int 1) .configured) here).1 = .ok (.matrix m) := by
    rw [run]
    exact ⟨_, rfl⟩
  obtain ⟨m, hm⟩ :=
    houtcome (runAll 0 (wandering.take 3) { World.initial with settings.precision := .single }).2
  have htold := hmatrix.outcome
  have hbuilt := hmatrix.builds rfl m (by rw [hm]; rfl)
  rw [hm] at htold
  refine ⟨outcomes, _, m, _, hrun, rfl, ?_, htold, hbuilt.trans (hmatrix.unset (by decide +kernel))⟩
  rw [hfactor]
  exact htwo

end Session

end NewtonRaphson
