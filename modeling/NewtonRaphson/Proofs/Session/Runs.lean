import Mathlib.Logic.Relation
import NewtonRaphson.Proofs.Session.Effect

/-! # Sessions step by step

A session is a run of single steps: commands that are no blocks, the settings that a block takes and
gives back, and the taking of what was written. Blocks are runs of steps themselves, however deep
they are nested. Besides, a step may be a search with any functions of the caller that touch nothing
themselves.

* **`Session.Step target w w'`** — one step, and the reference of the matrix that it may overwrite.
* **`Session.Runs touched w w'`** — steps one after the other that overwrite only matrices in
  `touched`.
* **`Session.runs_run`** — every command is a run, by induction on the blocks in it.
* **`Session.NamesHold`** — names stand for matrices that are there; every step keeps this. -/

namespace NewtonRaphson

open World (Within isFrame_within)

/-- The reference of a value, if it is a matrix. -/
def Value.ref? : Value → Option Ref
  | matrix r => some r
  | plain _ => none

namespace Session

/-- **One step** of a session, and the reference of the matrix that it may overwrite. -/
inductive Step : Option Ref → World Float Caller → World Float Caller → Prop
  /-- A command is carried out, or refused. -/
  | command (fuel : Nat) (c : Command) (hc : c.isBlock = false) (w : World Float Caller) :
      Step (c.overwritten? w.caller) w (run fuel c w).2
  /-- A block takes a precision, or gives it back. -/
  | precision (p : Precision) (w : World Float Caller) :
      Step none w { w with settings.precision := p }
  /-- What was written is taken. -/
  | taken (w : World Float Caller) : Step none w { w with journal.written := [] }
  /-- A Newton step with functions that touch nothing. -/
  | step {df ddf : Evaluator Float Caller} {x : Value} (hdf : (df x).Stays (Within ∅))
      (hddf : (ddf x).Stays (Within ∅)) (w : World Float Caller) :
      Step x.ref? w (Newton.step df ddf x w).2
  /-- An iteration with functions that touch nothing. -/
  | iteration {df ddf : Evaluator Float Caller} {limits : Limits Float}
      {callback : Option (Callback Float Caller)} {x : Value} (hdf : (df x).Stays (Within ∅))
      (hddf : (ddf x).Stays (Within ∅))
      (hcallback : ∀ report ∈ callback, ∀ n status,
        (report n x status).Stays (Within ∅)) (fuel : Nat)
      (w : World Float Caller) : Step x.ref? w (Iteration.run fuel df ddf limits callback x w).2

/-- **A run** of steps that overwrite only matrices in a set. -/
def Runs (touched : Set Ref) : World Float Caller → World Float Caller → Prop :=
  Relation.ReflTransGen fun w w' => ∃ target, Step target w w' ∧ ∀ r, target = some r → r ∈ touched

variable {touched : Set Ref} {w w' w'' : World Float Caller}

theorem Runs.refl (w : World Float Caller) : Runs touched w w := Relation.ReflTransGen.refl

theorem Runs.trans (h : Runs touched w w') (h' : Runs touched w' w'') : Runs touched w w'' :=
  Relation.ReflTransGen.trans h h'

theorem Runs.of_step {target : Option Ref} (h : Step target w w')
    (htarget : ∀ r, target = some r → r ∈ touched) : Runs touched w w' :=
  Relation.ReflTransGen.single ⟨target, h, htarget⟩

/-! ## (1) Blocks are runs -/

/-- Attempting a command leaves the world that the command leaves. -/
theorem attempt_bind {α β : Type} (x : SessionAction α) (f : Except Fault α → SessionAction β)
    (w : World Float Caller) : (attempt x >>= f) w = f (x w).1 (x w).2 := rfl

/-- A step within any set of matrices. -/
theorem Runs.step {target : Option Ref} (h : Step target w w') : Runs Set.univ w w' :=
  .of_step h fun _ _ => Set.mem_univ _

/-- The outcome that a sequence of commands tells of what became of one. -/
def outcomeOf : Except Fault Outcome → Outcome
  | .ok o => o
  | .error cause => .refused cause

/-- A sequence of commands carries out the first, takes what was written, and goes on. -/
theorem runAll_cons {c : Command} (hc : c ≠ .leave) (fuel : Nat) (rest : List Command)
    (w : World Float Caller) :
    runAll fuel (c :: rest) w =
      ((fun later => ((outcomeOf (run fuel c w).1, (run fuel c w).2.journal.written) :: later.1,
        later.2)) <$> runAll fuel rest) { (run fuel c w).2 with journal.written := [] } := by
  rw [runAll]
  · rw [attempt_bind]
    rcases run fuel c w with ⟨cause | o, w₁⟩
    all_goals
      dsimp only
      rw [pure_bind, Action.bind_of_ok (show takeWritten w₁ = (.ok w₁.journal.written,
        { w₁ with journal.written := [] }) from rfl)]
      rfl
  · exact fun h => hc h

/-- **A sequence of commands is never refused**, whatever becomes of its commands. -/
theorem exists_runAll (fuel : Nat) (cs : List Command) (w : World Float Caller) :
    ∃ later, (runAll fuel cs w).1 = .ok later := by
  induction cs generalizing w with
  | nil =>
    rw [runAll]
    exact ⟨_, rfl⟩
  | cons c rest ih =>
    by_cases hc : c = .leave
    · subst hc
      rw [runAll]
      exact ⟨_, rfl⟩
    · obtain ⟨later, hlater⟩ := ih { (run fuel c w).2 with journal.written := [] }
      rw [runAll_cons hc, Action.map_apply, hlater]
      exact ⟨_, rfl⟩

/-- **A block** goes on in its precision, gives back the one before, and is not refused. -/
theorem run_within {request : PrecisionRequest} {p : Precision} (hp : request.resolve = .ok p)
    {fuel : Nat} {body : List Command} {w w' : World Float Caller}
    {outcomes : List (Outcome × List (Entry Float))} {left : Bool}
    (hbody : runAll fuel body { w with settings.precision := p } = (.ok (outcomes, left), w')) :
    run fuel (.within request body) w =
      (.ok (.block outcomes left w.settings.precision),
        { w' with settings.precision := w.settings.precision }) := by
  have hblock : Action.inPrecision p (runAll fuel body) w =
      (.ok (outcomes, left), { w' with settings.precision := w.settings.precision }) := by
    unfold Action.inPrecision
    rw [hbody]
  rw [run, hp, ofExcept_bind, Action.bind_of_ok hblock]
  rfl

/-- Whatever its commands do, a block whose precision is accepted is not refused. -/
theorem exists_run_within {request : PrecisionRequest} {p : Precision}
    (hp : request.resolve = .ok p) (fuel : Nat) (body : List Command) (w : World Float Caller) :
    ∃ o, run fuel (.within request body) w =
      (.ok o, { (runAll fuel body { w with settings.precision := p }).2 with
        settings.precision := w.settings.precision }) := by
  obtain ⟨⟨outcomes, left⟩, hout⟩ := exists_runAll fuel body { w with settings.precision := p }
  exact ⟨_, run_within hp (Prod.ext hout rfl)⟩

/-- A block whose precision is refused does nothing. -/
theorem run_within_of_error {request : PrecisionRequest} {cause : Fault}
    (hp : request.resolve = .error cause) (fuel : Nat) (body : List Command)
    (w : World Float Caller) : run fuel (.within request body) w = (.error cause, w) := by
  rw [run, hp]
  rfl

mutual

/-- **Every command is a run of steps.** -/
theorem runs_run (fuel : Nat) (c : Command) (w : World Float Caller) :
    Runs Set.univ w (run fuel c w).2 := by
  by_cases hc : c.isBlock = false
  · exact .step (.command fuel c hc w)
  cases c with
  | within request body =>
    rcases hp : request.resolve with cause | p
    · rw [run_within_of_error hp]
      exact .refl w
    · obtain ⟨o, hrun⟩ := exists_run_within hp fuel body w
      rw [hrun]
      have henter : Runs Set.univ w { w with settings.precision := p } := .step (.precision p w)
      have hbody := runs_runAll fuel body { w with settings.precision := p }
      exact (henter.trans hbody).trans (.step (.precision w.settings.precision _))
  | _ => exact absurd rfl hc

/-- So is every sequence of commands. -/
theorem runs_runAll (fuel : Nat) (cs : List Command) (w : World Float Caller) :
    Runs Set.univ w (runAll fuel cs w).2 := by
  match cs with
  | [] =>
    rw [runAll]
    exact .refl w
  | c :: rest =>
    by_cases hc : c = .leave
    · subst hc
      rw [runAll]
      exact .refl w
    · rw [runAll_cons hc, Action.map_apply]
      have hfirst := runs_run fuel c w
      exact (hfirst.trans (.step (.taken _))).trans (runs_runAll fuel rest _)

end

/-! ## (2) What a run leaves alone -/

/-- Naming a matrix touches none. -/
theorem store_binding (target : Option String) (r : Ref) (w : World Float Caller) :
    (binding target r w).store = w.store := by
  cases target <;> rfl

/-- Delivering a matrix adds it to the store. -/
theorem store_delivered (target : Option String) (m : DenseMatrix Float) (w : World Float Caller) :
    (delivered target m w).store = w.store.add m :=
  store_binding target _ _

/-- A command overwrites its target at most. -/
theorem Effect.held {c : Command} {out : Except Fault Outcome × World Float Caller}
    (h : Effect c w out) {r : Ref} (hr : c.overwritten? w.caller ≠ some r) {m : DenseMatrix Float}
    (hm : w.store.get? r = some m) : out.2.store.get? r = some m := by
  cases h with
  | refused h => exact h.held r m (Set.notMem_empty r) hm
  | told _ h => exact h.held r m (Set.notMem_empty r) hm
  | settled => exact hm
  | @delivered o n w₁ hdelivers ho h hn hmatches =>
    rw [store_delivered]
    exact (h.add hn).held r m (Set.notMem_empty r) hm
  | aliased hc hsource ho =>
    rw [store_binding]
    exact hm
  | @overwritten o q w' hdelivers hnamed hq h ho hmatches =>
    refine h.held r m (fun hmem => hr ?_) hm
    rw [hq, Set.mem_singleton_iff.mp hmem]
  | @interrupted _ _ _ _ q _ _ _ _ _ _ _ hc hq hlimits hafter h =>
    refine h.held r m (fun hmem => hr ?_) hm
    subst hc
    rw [Set.mem_singleton_iff.mp hmem]
    exact hq

/-- A search lets only its point move. -/
theorem letsMove_target (x : Value) : Newton.LetsMove (Within {r | x.ref? = some r}) x :=
  World.letsMove_within fun _ hr => congrArg Value.ref? hr

/-- What touches nothing stays within every set of matrices. -/
theorem stays_of_empty {α : Type} {a : SessionAction α} (ha : a.Stays (Within ∅)) :
    a.Stays (Within touched) :=
  fun w => (ha w).of_empty

/-- A Newton step stays within its point. -/
theorem within_step {df ddf : Evaluator Float Caller} {x : Value} (hdf : (df x).Stays (Within ∅))
    (hddf : (ddf x).Stays (Within ∅)) :
    (Newton.step df ddf x).Stays (Within {r | x.ref? = some r}) :=
  Newton.stays_step (isFrame_within _) (stays_of_empty hdf) (stays_of_empty hddf)
    (letsMove_target x)

/-- So does an iteration. -/
theorem within_iteration {df ddf : Evaluator Float Caller} {limits : Limits Float}
    {callback : Option (Callback Float Caller)} {x : Value} (hdf : (df x).Stays (Within ∅))
    (hddf : (ddf x).Stays (Within ∅))
    (hcallback : ∀ report ∈ callback, ∀ n status, (report n x status).Stays (Within ∅))
    (fuel : Nat) :
    (Iteration.run fuel df ddf limits callback x).Stays (Within {r | x.ref? = some r}) :=
  Iteration.stays_run (isFrame_within _) (stays_of_empty hdf) (stays_of_empty hddf)
    (letsMove_target x)
    (fun report hreport n status => stays_of_empty (hcallback report hreport n status)) fuel

/-- **A step** overwrites its target at most. -/
theorem Step.held {target : Option Ref} (h : Step target w w') {r : Ref} (hr : target ≠ some r)
    {m : DenseMatrix Float} (hm : w.store.get? r = some m) : w'.store.get? r = some m := by
  cases h with
  | command fuel c hc => exact (run_effect fuel hc w).held hr hm
  | precision p => exact hm
  | taken => exact hm
  | step hdf hddf => exact (within_step hdf hddf w).held r m hr hm
  | iteration hdf hddf hcallback fuel =>
    exact (within_iteration hdf hddf hcallback fuel w).held r m hr hm

/-- **A run** overwrites the matrices of its set at most. -/
theorem Runs.held (h : Runs touched w w') {r : Ref} (hr : r ∉ touched) {m : DenseMatrix Float}
    (hm : w.store.get? r = some m) : w'.store.get? r = some m := by
  induction h with
  | refl => exact hm
  | tail _ hstep ih =>
    obtain ⟨target, hstep, htarget⟩ := hstep
    exact hstep.held (fun heq => hr (htarget r heq)) ih

/-! ## (3) Names -/

/-- A name that is bound stands for the new reference, every other for what it stood for. -/
theorem lookup_bind (caller : Caller) (name other : String) (r : Ref) :
    (caller.bind name r).registers.lookup other =
      if other = name then some r else caller.registers.lookup other := by
  unfold Caller.bind
  dsimp only
  by_cases hother : other = name
  · subst hother
    rw [if_pos rfl, List.lookup_cons_self]
  · have hne : (other == name) = false := beq_eq_false_iff_ne.mpr hother
    rw [if_neg hother, List.lookup_cons, hne]
    dsimp only
    -- the pairs that are dropped are none of the other name
    induction caller.registers with
    | nil => rfl
    | cons pair rest ih =>
      obtain ⟨key, q⟩ := pair
      by_cases hkey : key = name
      · subst hkey
        rw [List.filter_cons_of_neg (by simp), ih, List.lookup_cons, hne]
      · rw [List.filter_cons_of_pos (by simpa using hkey), List.lookup_cons, List.lookup_cons, ih]

/-- Every name stands for a matrix that is there. -/
def NamesHold (w : World Float Caller) : Prop :=
  ∀ name r, w.caller.registers.lookup name = some r → r < w.store.size

theorem lookup_binding (target : Option String) (r : Ref) (w : World Float Caller) (name : String) :
    (binding target r w).caller.registers.lookup name =
      if target = some name then some r else w.caller.registers.lookup name := by
  cases target with
  | none => rfl
  | some bound =>
    show (w.caller.bind bound r).registers.lookup name = _
    rw [lookup_bind]
    by_cases h : name = bound
    · rw [if_pos h, if_pos (congrArg some h.symm)]
    · rw [if_neg h, if_neg fun heq => h (Option.some.inj heq).symm]

/-- What stays within a frame keeps every name. -/
theorem NamesHold.within (hw : NamesHold w) (h : Within touched w w') : NamesHold w' := by
  intro name r hr
  rw [h.registers] at hr
  exact Nat.lt_of_lt_of_le (hw name r hr) h.size_le

/-- **A step** keeps names standing for matrices that are there. -/
theorem Step.namesHold {target : Option Ref} (h : Step target w w') (hw : NamesHold w) :
    NamesHold w' := by
  cases h with
  | command fuel c hc =>
    have heffect := run_effect fuel hc w
    generalize run fuel c w = out at heffect ⊢
    cases heffect with
    | refused h => exact hw.within h
    | told _ h => exact hw.within h
    | settled => exact hw
    | @delivered o m w₁ hdelivers ho h hm hmatches =>
      intro name r hr
      rw [store_delivered, Store.size_add]
      change (binding c.named? w₁.store.size _).caller.registers.lookup name = some r at hr
      rw [lookup_binding] at hr
      split at hr
      · cases hr
        exact Nat.lt_succ_self _
      · exact Nat.lt_succ_of_lt (hw.within h name r hr)
    | aliased hc hsource ho =>
      intro name r hr
      rw [lookup_binding] at hr
      rw [store_binding]
      split at hr
      · cases hr
        exact hw _ _ hsource
      · exact hw name r hr
    | overwritten hdelivers hnamed hr h ho hmatches => exact hw.within h
    | interrupted hc hr hlimits hafter h => exact hw.within h
  | precision p => exact hw
  | taken => exact hw
  | step hdf hddf => exact hw.within (within_step hdf hddf w)
  | iteration hdf hddf hcallback fuel =>
    exact hw.within (within_iteration hdf hddf hcallback fuel w)

theorem namesHold_initial : NamesHold World.initial := nofun

/-- So does a run. -/
theorem Runs.namesHold (h : Runs touched w w') (hw : NamesHold w) : NamesHold w' := by
  induction h with
  | refl => exact hw
  | tail _ hstep ih =>
    obtain ⟨target, hstep, -⟩ := hstep
    exact hstep.namesHold ih

end Session

end NewtonRaphson
