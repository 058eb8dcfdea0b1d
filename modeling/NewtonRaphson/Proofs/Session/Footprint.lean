import NewtonRaphson.Proofs.Session.Runs

/-! # What a step of a session changes

Several names may stand for one matrix, and operands may be one and the same. What a step changes
does not depend on this: it overwrites one matrix at most, lets one name at most stand for something
else, and changes nothing if it is refused. A new matrix has a reference that was never used, so
what happens to old matrices does not affect it, and what happens to it does not affect them.

* **`World.Keeps w w'`** — every matrix holds what it held, every name stands for what it stood for.
* **`Session.Apart r m w w'`** — the matrix `m` is new in `w'`, and steps that overwrite others do
  not affect it.
* **`Session.Footprint c w out`** — all that a command changes.
* **`Session.footprint_of_runs`** — the footprint of every step in every world that a session comes
  to. -/

namespace NewtonRaphson

open World (Within isFrame_within)

/-- Every matrix and every name is **kept**. -/
structure World.Keeps (w w' : World Float Caller) : Prop where
  /-- Matrices hold what they held. -/
  held : ∀ r m, w.store.get? r = some m → w'.store.get? r = some m
  /-- Names stand for what they stood for. -/
  lookup : ∀ name, w'.caller.registers.lookup name = w.caller.registers.lookup name

/-- What touches no matrix keeps all. -/
theorem World.Within.keeps {w w' : World Float Caller} (h : Within ∅ w w') : w.Keeps w' where
  held r m hm := h.held r m (Set.notMem_empty r) hm
  lookup name := by rw [h.registers]

/-- A reference that was not used yet holds no matrix. -/
theorem Store.get?_of_size_le {S : Type} {s : Store S} {r : Ref} (h : s.size ≤ r) :
    s.get? r = none :=
  Array.getElem?_eq_none h

namespace Session

variable {c : Command} {w w' : World Float Caller} {out : Except Fault Outcome × World Float Caller}

/-- Whether what a command came to tells that it was refused. -/
def isRefused : Except Fault Outcome → Bool
  | .ok o => o.isSearchRefused
  | .error _ => true

/-- The matrix `m` is **apart** from those of the world `w`: it is new in `w'`, later steps that
overwrite others leave it alone, and those that overwrite it leave the others alone. -/
structure Apart (r : Ref) (m : DenseMatrix Float) (w w' : World Float Caller) : Prop where
  new : w.store.get? r = none
  stored : w'.store.get? r = some m
  kept : ∀ w'', Runs {q | q ≠ r} w' w'' → w''.store.get? r = some m
  keeps : ∀ w'', Runs {r} w' w'' → ∀ q n, w.store.get? q = some n → w''.store.get? q = some n

/-- **The footprint of a command**: all that it changes. -/
structure Footprint (c : Command) (w : World Float Caller)
    (out : Except Fault Outcome × World Float Caller) : Prop where
  /-- At most the target is overwritten. -/
  held : ∀ r m, c.overwritten? w.caller ≠ some r → w.store.get? r = some m →
    out.2.store.get? r = some m
  /-- At most the name of the result stands for something else. -/
  lookup : ∀ name, c.named? ≠ some name →
    out.2.caller.registers.lookup name = w.caller.registers.lookup name
  /-- A result that is a new matrix is apart from all others, and no name stands for it but its
  own. -/
  delivered : c.delivers = true → ∀ o, out.1 = .ok o → ∃ r m,
    o.matrix? = some m ∧ Apart r m w out.2 ∧
    ∀ name, out.2.caller.registers.lookup name = some r ↔ c.named? = some name
  /-- A further name stands for the matrix that was there. -/
  aliased : ∀ target source o, c = .alias target source → out.1 = .ok o → out.2.store = w.store ∧
    ∃ r, w.caller.registers.lookup source = some r ∧
      ∀ name, target = some name → out.2.caller.registers.lookup name = some r
  /-- A refused command that is no iteration changes nothing. -/
  refused : isRefused out.1 = true → (∀ point df ddf plan, c ≠ .iterate point df ddf plan) →
    w.Keeps out.2
  /-- A refused iteration whose callback overwrites nothing leaves what its last completed step
  left. -/
  interrupted : isRefused out.1 = true → ∀ point df ddf plan, c = .iterate point df ddf plan →
    (∀ callback ∈ plan.callback, callback.overwriteAt = none) →
      w.Keeps out.2 ∨ ∃ r limits n w₁ cause x trace, c.overwritten? w.caller = some r ∧
        limitsOf plan = .ok limits ∧ out.1 = .ok (.searchRefused cause x trace) ∧
        Iteration.RefusedAfter (df.evaluator gradientPlace) (ddf.evaluator hessianPlace) limits
          (plan.callback.map CallbackPlan.callback) (.matrix r) (fresh w) n w₁ cause out.2 ∧
        w₁.Keeps out.2

/-! ## (1) The parts of a footprint -/

/-- A command changes the name of its result at most. -/
theorem Effect.lookup (h : Effect c w out) {name : String} (hname : c.named? ≠ some name) :
    out.2.caller.registers.lookup name = w.caller.registers.lookup name := by
  cases h with
  | refused h => exact h.keeps.lookup name
  | told _ h => exact h.keeps.lookup name
  | settled => rfl
  | delivered hdelivers ho h hm hmatches =>
    refine (lookup_binding _ _ _ name).trans ?_
    rw [if_neg hname]
    exact h.keeps.lookup name
  | @aliased o target source r hc hsource ho =>
    subst hc
    have htarget : target ≠ some name := hname
    rw [lookup_binding, if_neg htarget]
  | overwritten hdelivers hnamed hr h ho hmatches => rw [h.registers]
  | interrupted hc hr hlimits hafter h => rw [h.registers]

/-- A matrix that is delivered is apart from all others: its reference is beyond those of the old
ones. -/
theorem apart_delivered {w₁ : World Float Caller} (h : Within ∅ w w₁) {m : DenseMatrix Float}
    (hm : w.store.Representable → m.Representable) (target : Option String) :
    Apart w₁.store.size m w (delivered target m w₁) := by
  have hstored : (delivered target m w₁).store.get? w₁.store.size = some m := by
    rw [store_delivered, Store.get?_add_size]
  have hheld : ∀ q n, w.store.get? q = some n → (delivered target m w₁).store.get? q = some n := by
    intro q n hn
    rw [store_delivered]
    exact (h.add hm).held q n (Set.notMem_empty q) hn
  refine ⟨Store.get?_of_size_le h.size_le, hstored, fun w'' hrun => ?_, fun w'' hrun q n hn => ?_⟩
  · exact hrun.held (fun hne => hne rfl) hstored
  · refine hrun.held (fun hq => ?_) (hheld q n hn)
    have hlt : q < w.store.size := Store.lt_size_of_get? hn
    exact Nat.not_le_of_lt hlt (Set.mem_singleton_iff.mp hq ▸ h.size_le)

/-- **A new matrix** is apart from all others, and no name stands for it but its own. -/
theorem Effect.apart (h : Effect c w out) (hw : NamesHold w) (hdelivers : c.delivers = true)
    {o : Outcome} (hout : out.1 = .ok o) :
    ∃ r m, o.matrix? = some m ∧ Apart r m w out.2 ∧
      ∀ name, out.2.caller.registers.lookup name = some r ↔ c.named? = some name := by
  cases h with
  | refused h => cases hout
  | told htells h => exact absurd (htells.delivers_eq.symm.trans hdelivers) Bool.false_ne_true
  | settled htells hfactor =>
    exact absurd (htells.delivers_eq.symm.trans hdelivers) Bool.false_ne_true
  | @delivered o m w₁ hdelivers ho h hm hmatches =>
    cases hout
    refine ⟨w₁.store.size, m, ho, apart_delivered h hm _, fun name => ?_⟩
    rw [Session.delivered, lookup_binding]
    split
    · rename_i hnamed
      exact iff_of_true rfl hnamed
    · rename_i hnamed
      -- the names that there were stand for matrices that there were
      refine iff_of_false (fun hr => ?_) hnamed
      exact Nat.lt_irrefl _ (hw.within h name _ hr)
  | aliased hc hsource ho =>
    subst hc
    cases hdelivers
  | overwritten hkept hnamed hr h ho hmatches =>
    exact absurd (hkept.symm.trans hdelivers) Bool.false_ne_true
  | interrupted hc hr hlimits hafter h =>
    subst hc
    cases hdelivers

/-- A further name stands for the matrix that was there. -/
theorem Effect.aliased_eq (h : Effect c w out) {target : Option String} {source : String}
    (hc : c = .alias target source) {o : Outcome} (hout : out.1 = .ok o) :
    out.2.store = w.store ∧ ∃ r, w.caller.registers.lookup source = some r ∧
      ∀ name, target = some name → out.2.caller.registers.lookup name = some r := by
  cases h with
  | refused h => cases hout
  | told htells h =>
    subst hc
    cases htells.operands_eq
  | settled htells hfactor =>
    subst hc
    cases htells.operands_eq
  | delivered hdelivers ho h hm hmatches =>
    subst hc
    cases hdelivers
  | aliased hc' hsource ho =>
    subst hc'
    cases hc
    refine ⟨store_binding _ _ _, _, hsource, fun name hname => ?_⟩
    rw [lookup_binding, if_pos hname]
  | overwritten hdelivers hnamed hr h ho hmatches =>
    subst hc
    cases hr
  | interrupted hc' hr hlimits hafter h =>
    subst hc'
    cases hc

/-- The fault of an outcome with a matrix is none. -/
theorem isSearchRefused_of_matrix? {o : Outcome} {m : DenseMatrix Float} (ho : o.matrix? = some m) :
    o.isSearchRefused = false := by
  cases o with
  | searchRefused cause x trace => cases ho
  | _ => rfl

/-- **A refused command** changes nothing, except an iteration that is refused on its way. -/
theorem Effect.keeps_or_interrupted (h : Effect c w out) (hout : isRefused out.1 = true) :
    w.Keeps out.2 ∨ ∃ point df ddf plan r limits n w₁ cause x trace,
      c = .iterate (.register point) df ddf plan ∧
      w.caller.registers.lookup point = some r ∧ limitsOf plan = .ok limits ∧
      out.1 = .ok (.searchRefused cause x trace) ∧
      Iteration.RefusedAfter (df.evaluator gradientPlace) (ddf.evaluator hessianPlace) limits
        (plan.callback.map CallbackPlan.callback) (.matrix r) (fresh w) n w₁ cause out.2 := by
  cases h with
  | refused h => exact .inl h.keeps
  | told _ h => exact .inl h.keeps
  | settled => exact .inl ⟨fun _ _ hm => hm, fun _ => rfl⟩
  | delivered hdelivers ho h hm hmatches =>
    exact absurd ((isSearchRefused_of_matrix? ho).symm.trans hout) Bool.false_ne_true
  | aliased hc hsource ho =>
    exact absurd ((isSearchRefused_of_matrix? ho).symm.trans hout) Bool.false_ne_true
  | overwritten hdelivers hnamed hr h ho hmatches =>
    exact absurd (ho.symm.trans hout) Bool.false_ne_true
  | interrupted hc hr hlimits hafter h =>
    exact .inr ⟨_, _, _, _, _, _, _, _, _, _, _, hc, hr, hlimits, rfl, hafter⟩

/-- **What an interrupted iteration leaves** is what its last completed step left, if the callback
overwrites nothing. -/
theorem keeps_of_refusedAfter {df ddf : Evaluator Float Caller} {limits : Limits Float}
    {callback : Option (Callback Float Caller)} {x : Value} {n : Nat} {w₁ : World Float Caller}
    {cause : Fault} (hdf : (df x).Stays (Within ∅)) (hddf : (ddf x).Stays (Within ∅))
    (hcallback : ∀ report ∈ callback, ∀ n status, (report n x status).Stays (Within ∅))
    (h : Iteration.RefusedAfter df ddf limits callback x w n w₁ cause w') : w₁.Keeps w' :=
  (h.rel (isFrame_within ∅) hdf hddf hcallback).keeps

/-- **The footprint of a command** that ends in one of the known ways. -/
theorem Effect.footprint (h : Effect c w out) (hw : NamesHold w) : Footprint c w out where
  held r m hr hm := h.held hr hm
  lookup name hname := h.lookup hname
  delivered hdelivers o ho := h.apart hw hdelivers ho
  aliased target source o hc ho := h.aliased_eq hc ho
  refused hout hc := by
    rcases h.keeps_or_interrupted hout with hkeeps | ⟨_, _, _, _, _, _, _, _, _, _, _, hiterate, -⟩
    · exact hkeeps
    · exact absurd hiterate (hc _ _ _ _)
  interrupted hout point df ddf plan hc hcallback := by
    rcases h.keeps_or_interrupted hout with
      hkeeps | ⟨name, _, _, _, r, limits, n, w₁, cause, x, trace, hiterate, hr, hlimits, ho, hafter⟩
    · exact .inl hkeeps
    · subst hc
      cases hiterate
      refine .inr ⟨r, limits, n, w₁, cause, x, trace, hr, hlimits, ho, hafter, ?_⟩
      refine keeps_of_refusedAfter (df.stays_evaluator _ _) (ddf.stays_evaluator _ _) ?_ hafter
      intro report hreport k status
      obtain ⟨callback, hmem, rfl⟩ := Option.map_eq_some_iff.mp hreport
      exact callback.stays_callback (.inl (hcallback callback hmem)) k status

/-! ## (2) Every step in every world -/

/-- A Newton step that is refused keeps every matrix and every name. -/
theorem keeps_of_step_eq_error {df ddf : Evaluator Float Caller} {x : Value} {cause : Fault}
    (hdf : (df x).Stays (Within ∅)) (hddf : (ddf x).Stays (Within ∅))
    (h : Newton.step df ddf x w = (.error cause, w')) : w.Keeps w' :=
  (Newton.rel_of_step_eq_error (isFrame_within ∅) hdf hddf h).keeps

/-- **What every step of a session changes**, in a world that a session came to, whichever names
stand for one matrix.
* A command has the footprint above; a block whose precision is refused changes nothing.
* The operators in place that do not overwrite let their target stand for a new matrix; all other
  names stand for what they stood for, and every matrix holds what it held.
* A step overwrites at most its target, and steps one after the other overwrite at most their
  targets.
* A Newton step with any functions of the caller that touch nothing changes nothing if it is
  refused, and an iteration that is refused leaves what its last completed step left. -/
theorem footprint_of_runs (hw : Runs Set.univ World.initial w) :
    (∀ fuel c, c.isBlock = false → Footprint c w (run fuel c w)) ∧
    (∀ fuel request body cause w', run fuel (.within request body) w = (.error cause, w') →
      w' = w) ∧
    (∀ fuel operator target right o w', operator.overwrites = false →
      run fuel (.update operator target right) w = (.ok o, w') →
        (∀ q n, w.store.get? q = some n → w'.store.get? q = some n) ∧
        (∀ name, name ≠ target → w'.caller.registers.lookup name = w.caller.registers.lookup name) ∧
        ∃ r m, o.matrix? = some m ∧ w'.caller.registers.lookup target = some r ∧ Apart r m w w') ∧
    (∀ target w', Step target w w' → ∀ r m, target ≠ some r → w.store.get? r = some m →
      w'.store.get? r = some m) ∧
    (∀ touched w', Runs touched w w' → ∀ r m, r ∉ touched → w.store.get? r = some m →
      w'.store.get? r = some m) ∧
    ∀ (df ddf : Evaluator Float Caller) (x : Value),
      (df x).Stays (Within ∅) → (ddf x).Stays (Within ∅) →
      (∀ cause w', Newton.step df ddf x w = (.error cause, w') → w.Keeps w') ∧
      ∀ limits callback, (∀ report ∈ callback, ∀ n status, (report n x status).Stays (Within ∅)) →
        ∀ fuel cause w', Iteration.run fuel df ddf limits callback x w = (.error cause, w') →
          ∃ n w₁, Iteration.RefusedAfter df ddf limits callback x w n w₁ cause w' ∧
          w₁.Keeps w' := by
  have hnames : NamesHold w := hw.namesHold namesHold_initial
  have hfootprint : ∀ fuel c, c.isBlock = false → Footprint c w (run fuel c w) := fun fuel c hc =>
    (run_effect fuel hc w).footprint hnames
  refine ⟨hfootprint, ?_, ?_, fun target w' h r m hr hm => h.held hr hm,
    fun touched w' h r m hr hm => h.held hr hm,
    fun df ddf x hdf hddf => ⟨fun cause w' h => keeps_of_step_eq_error hdf hddf h, ?_⟩⟩
  · intro fuel request body cause w' h
    rcases hp : request.resolve with cause' | p
    · rw [run_within_of_error hp] at h
      exact (congrArg Prod.snd h).symm
    · obtain ⟨o, hrun⟩ := exists_run_within hp fuel body w
      rw [hrun] at h
      cases h
  · intro fuel operator target right o w' hoverwrites h
    have hupdate := hfootprint fuel (.update operator target right) rfl
    rw [h] at hupdate
    obtain ⟨hdelivers, hnamed, hoverwritten⟩ :=
      Command.update_of_not_overwrites hoverwrites target right w.caller
    obtain ⟨r, m, ho, hapart, hbound⟩ := hupdate.delivered hdelivers o rfl
    refine ⟨fun q n hn => hupdate.held q n ?_ hn,
      fun name hname => hupdate.lookup name ?_, r, m, ho, (hbound target).mpr hnamed, hapart⟩
    · rw [hoverwritten]
      exact (Option.some_ne_none q).symm
    · rw [hnamed]
      exact fun heq => hname (Option.some.inj heq).symm
  · intro limits callback hcallback fuel cause w' h
    obtain ⟨n, w₁, hafter⟩ := Iteration.refusedAfter_of_run h
    exact ⟨n, w₁, hafter, keeps_of_refusedAfter hdf hddf hcallback hafter⟩

/-! ### Two names for one matrix -/

/-- A session in which two names stand for one matrix. -/
def sharing : List Command :=
  [.ofData (some "a") (.list [.real 1.0, .real 2.0]) (.fixed .double), .alias (some "b") "a"]

/-- What scaling the matrix of the second name in place leaves. -/
def scaled : Except Fault Outcome × World Float Caller :=
  run 0 (.update .scale "b" (.plain (.int 2))) (runAll 0 sharing World.initial).2

/-- Scaling in place under one name leaves the matrix of the other name as it was: the two names
stand for different matrices afterwards. -/
theorem footprint_of_sharing :
    (runAll 0 sharing World.initial).2.caller.registers.lookup "a" =
        (runAll 0 sharing World.initial).2.caller.registers.lookup "b" ∧
      scaled.2.caller.registers.lookup "a" = some 0 ∧
      scaled.2.store.get? 0 = (runAll 0 sharing World.initial).2.store.get? 0 ∧
      ∃ r m, scaled.2.caller.registers.lookup "b" = some r ∧
        Apart r m (runAll 0 sharing World.initial).2 scaled.2 := by
  have hruns : Runs Set.univ World.initial (runAll 0 sharing World.initial).2 :=
    runs_runAll 0 sharing World.initial
  have hreturns : scaled.1.toOption.isSome = true := by decide +kernel
  obtain ⟨o, ho⟩ := Option.isSome_iff_exists.mp hreturns
  have hscaled : run 0 (.update .scale "b" (.plain (.int 2))) (runAll 0 sharing World.initial).2 =
      (.ok o, scaled.2) := Prod.ext (Action.eq_ok_of_toOption ho) rfl
  obtain ⟨-, -, hupdate, -⟩ := footprint_of_runs hruns
  obtain ⟨hheld, hlookup, r, m, -, hb, hapart⟩ := hupdate 0 .scale "b" _ o scaled.2 rfl hscaled
  have ha : (runAll 0 sharing World.initial).2.caller.registers.lookup "a" = some 0 := by
    decide +kernel
  have hstored : ((runAll 0 sharing World.initial).2.store.get? 0).isSome = true := by
    decide +kernel
  obtain ⟨n, hn⟩ := Option.isSome_iff_exists.mp hstored
  refine ⟨by decide +kernel, (hlookup "a" (by decide)).trans ha, ?_, r, m, hb, hapart⟩
  rw [hn]
  exact hheld 0 n hn

end Session

end NewtonRaphson
