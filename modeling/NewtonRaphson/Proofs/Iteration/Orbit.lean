import Mathlib.Data.List.Basic
import NewtonRaphson.Proofs.Evaluator
import NewtonRaphson.Proofs.Iteration.Course

/-! # The orbit of a start

With pure evaluators a step depends on nothing but what the point holds, so an iteration follows a
sequence that its start determines. The sequence knows neither tolerance nor bound; these only say
where it is cut off.

* **`Iteration.Standing`** — what there is to know between two steps: point, last status, norm of
  the gradient.
* **`Iteration.orbit`** — the sequence of standings from a start, as a function;
  `Iteration.orbit_add` says that it may be entered anew at every standing that came of a success.
* **`Iteration.Course.exists_shows`** — the stages of a run show the orbit.
* **`Iteration.EndsAt`** — the first standing of the orbit at which limits end an iteration.
* **`Iteration.exists_endsAt_of_run`** and **`Iteration.exists_run_of_endsAt`** — a run returns
  exactly if the orbit has such a standing, and then all it returns, leaves and tells is read off
  the orbit. -/

namespace NewtonRaphson

open StepOutcome (pointAfter)

variable {S E : Type}

namespace Iteration

/-! ## (1) Standings -/

/-- Where an iteration with pure evaluators **stands** between two steps. -/
structure Standing (S : Type) where
  /-- What the point holds. -/
  point : DenseMatrix S
  /-- The status of the last step, `success` before the first. -/
  status : Status
  /-- The norm of the gradient at the point. -/
  norm : S

/-- Whether an iteration that stands there after `n` steps is over. -/
def Standing.isOver [Scalar S] (limits : Limits S) (n : Nat) (s : Standing S) : Bool :=
  Iteration.isOver limits ⟨n, s.status, s.norm, []⟩

section Orbit

variable [SingularValues S] (G H : DenseMatrix S → Except Fault (DenseMatrix S)) (factor : S)

/-- The standing at a point, if the gradient has a value there. -/
def standing? (status : Status) (m : DenseMatrix S) : Option (Standing S) :=
  (G m).toOption.map fun g => ⟨m, status, g.norm⟩

/-- The standing after a step from a point, if the step is not refused. -/
def next? (m : DenseMatrix S) : Option (Standing S) :=
  if m.isVector then
    (G m).toOption.bind fun g => (H m).toOption.bind fun h =>
      (Newton.outcome factor m g h).toOption.bind fun o =>
        standing? G o.status (pointAfter m (.ok o))
  else none

/-- **The orbit** of a start: the standings after 0, 1, 2, … steps, as long as no step is
refused. -/
def orbit (x : DenseMatrix S) : Nat → Option (Standing S)
  | 0 => standing? G .success x
  | n + 1 => (orbit x n).bind fun s => next? G H factor s.point

/-- The points of the first `n` steps. -/
def pathOf (x : DenseMatrix S) (n : Nat) : List (DenseMatrix S) :=
  (List.range n).filterMap fun k => (orbit G H factor x (k + 1)).map Standing.point

/-- What a callback is told of the first `n` steps: their numbers from one on, the point, what it
holds, and the status. -/
def tellingsOf (r : Ref) (x : DenseMatrix S) (n : Nat) :
    List (Nat × Value × Option (DenseMatrix S) × Status) :=
  (List.range n).filterMap fun k =>
    (orbit G H factor x (k + 1)).map fun s => (k + 1, .matrix r, some s.point, s.status)

variable {G H factor} {x m : DenseMatrix S} {s t : Standing S} {n : Nat}

/-- There is a standing at a point exactly if the gradient has a value there, whose norm it has. -/
theorem standing?_eq_some_iff {status : Status} :
    standing? G status m = some s ↔ ∃ g, G m = .ok g ∧ s = ⟨m, status, g.norm⟩ := by
  unfold standing?
  rw [Option.map_eq_some_iff]
  constructor
  · rintro ⟨g, hg, rfl⟩
    exact ⟨g, Action.eq_ok_of_toOption hg, rfl⟩
  · rintro ⟨g, hg, rfl⟩
    exact ⟨g, by rw [hg]; rfl, rfl⟩

/-- **What a step does to a standing**: it carries out the outcome at the values of gradient and
Hessian, and the gradient has a value at the point it comes to. -/
theorem next?_eq_some_iff :
    next? G H factor m = some s ↔ m.isVector = true ∧ ∃ g h o, G m = .ok g ∧ H m = .ok h ∧
      Newton.outcome factor m g h = .ok o ∧ standing? G o.status (pointAfter m (.ok o)) =
      some s := by
  unfold next?
  by_cases hm : m.isVector = true
  · rw [if_pos hm]
    constructor
    · intro hs
      obtain ⟨g, hg, hs⟩ := Option.bind_eq_some_iff.mp hs
      obtain ⟨h, hh, hs⟩ := Option.bind_eq_some_iff.mp hs
      obtain ⟨o, ho, hs⟩ := Option.bind_eq_some_iff.mp hs
      exact ⟨hm, g, h, o, Action.eq_ok_of_toOption hg, Action.eq_ok_of_toOption hh,
        Action.eq_ok_of_toOption ho, hs⟩
    · rintro ⟨-, g, h, o, hg, hh, ho, hs⟩
      rw [hg, hh]
      show (Newton.outcome factor m g h).toOption.bind _ = some s
      rw [ho]
      exact hs
  · rw [if_neg hm]
    exact ⟨nofun, fun h => absurd h.1 hm⟩

/-- A step that does not succeed stays where it is. -/
theorem point_of_next? (h : next? G H factor m = some s) (hs : s.status ≠ .success) :
    s.point = m := by
  obtain ⟨-, g, h, o, -, -, -, hstanding⟩ := next?_eq_some_iff.mp h
  obtain ⟨_, -, rfl⟩ := standing?_eq_some_iff.mp hstanding
  exact StepOutcome.pointAfter_of_ne_success hs m

/-! ## (2) Orbits -/

/-- One more step of an orbit. -/
theorem orbit_succ (h : orbit G H factor x n = some s) :
    orbit G H factor x (n + 1) = next? G H factor s.point := by
  rw [orbit, h]
  rfl

/-- The norm of a standing is that of the gradient at its point. -/
theorem standing?_of_orbit (h : orbit G H factor x n = some s) :
    standing? G s.status s.point = some s := by
  -- every standing was made by `standing?`, at the start or after a step
  have hmade : ∃ status m, standing? G status m = some s := by
    cases n with
    | zero => exact ⟨.success, x, h⟩
    | succ n =>
      obtain ⟨t, -, hs⟩ := Option.bind_eq_some_iff.mp h
      obtain ⟨-, _, _, o, -, -, -, hs⟩ := next?_eq_some_iff.mp hs
      exact ⟨o.status, _, hs⟩
  obtain ⟨status, m, hs⟩ := hmade
  obtain ⟨_, -, rfl⟩ := standing?_eq_some_iff.mp hs
  exact hs

/-- **An orbit may be entered anew** at every standing that came of a success: what follows is the
orbit of the point there. -/
theorem orbit_add (h : orbit G H factor x n = some s) (hs : s.status = .success) (j : Nat) :
    orbit G H factor x (n + j) = orbit G H factor s.point j := by
  induction j with
  | zero =>
    have hstanding := standing?_of_orbit h
    rw [hs] at hstanding
    rw [Nat.add_zero, h, orbit, hstanding]
  | succ j ih =>
    show orbit G H factor x (n + j + 1) = _
    rw [orbit, ih, orbit]

/-- The points of an orbit that is entered anew come behind those before. -/
theorem pathOf_add (h : orbit G H factor x n = some s) (hs : s.status = .success) (j : Nat) :
    pathOf G H factor x (n + j) = pathOf G H factor x n ++ pathOf G H factor s.point j := by
  have hlater (k : Nat) : orbit G H factor x (n + k + 1) = orbit G H factor s.point (k + 1) :=
    orbit_add h hs (k + 1)
  simp only [pathOf, List.range_add, List.filterMap_append, List.filterMap_map,
    Function.comp_def, hlater]

/-- So do the tellings, with the numbers of the steps before added to theirs. -/
theorem tellingsOf_add (h : orbit G H factor x n = some s) (hs : s.status = .success)
    (r : Ref) (j : Nat) :
    tellingsOf G H factor r x (n + j) = tellingsOf G H factor r x n ++
      (tellingsOf G H factor r s.point j).map fun told => (n + told.1, told.2) := by
  have hlater (k : Nat) : orbit G H factor x (n + (k + 1)) = orbit G H factor s.point (k + 1) :=
    orbit_add h hs (k + 1)
  simp only [tellingsOf, List.range_add, List.filterMap_append, List.filterMap_map,
    List.map_filterMap, Function.comp_def, Nat.add_assoc, hlater, Option.map_map]

/-! ## (3) Where limits end an orbit -/

variable (G H factor) in
/-- **An iteration with limits ends** after `n` steps from `x`, standing at `s`: there the limits
end it, and before it they do not. -/
structure EndsAt (limits : Limits S) (x : DenseMatrix S) (n : Nat) (s : Standing S) : Prop where
  /-- The orbit goes that far. -/
  stands : orbit G H factor x n = some s
  /-- The iteration is over there. -/
  isEnd : s.isOver limits n = true
  /-- It is not over before. -/
  goesOn : ∀ j < n, ∃ t, orbit G H factor x j = some t ∧ t.isOver limits j = false

/-- An iteration ends nowhere before it goes on. -/
theorem EndsAt.le {limits : Limits S} {j : Nat} (h : EndsAt G H factor limits x n s)
    (hgo : ∀ i < j, ∃ t, orbit G H factor x i = some t ∧ t.isOver limits i = false) : j ≤ n := by
  refine Nat.le_of_not_lt fun hlt => ?_
  obtain ⟨t, ht, hnot⟩ := hgo n hlt
  obtain rfl := Option.some.inj (h.stands.symm.trans ht)
  exact absurd h.isEnd (Bool.eq_false_iff.mp hnot)

/-- **There is one end.** -/
theorem EndsAt.unique {limits : Limits S} {n' : Nat} {s' : Standing S}
    (h : EndsAt G H factor limits x n s) (h' : EndsAt G H factor limits x n' s') :
    n = n' ∧ s = s' := by
  obtain rfl : n = n' := Nat.le_antisymm (h'.le h.goesOn) (h.le h'.goesOn)
  exact ⟨rfl, Option.some.inj (h.stands.symm.trans h'.stands)⟩

end Orbit

/-! ## (4) Runs follow the orbit -/

/-- A callback is **quiet** at a point: it always returns, and touches neither the point nor the
settings. -/
structure Quiet (report : Callback S E) (x : Value) : Prop where
  returns : ∀ steps status w, (report steps x status w).1 = .ok ()
  leaves : ∀ steps status, (report steps x status).Leaves x
  settings : ∀ steps status w, (report steps x status w).2.settings = w.settings

/-- A stage **shows** a standing: it has its point, status and norm, and the settings of the
start. -/
structure Shows (settings : Settings S) (stage : Stage S E) (s : Standing S) : Prop where
  point : stage.point = some s.point
  status : stage.status = s.status
  norm : stage.norm = s.norm
  settings_eq : stage.world.settings = settings

/-- Telling a quiet callback of a step returns, and touches neither point nor settings. -/
theorem tell_of_quiet {callback : Option (Callback S E)} {x : Value}
    (hcallback : ∀ report ∈ callback, Quiet report x) (steps : Nat) (status : Status)
    (w : World S E) :
    ∃ w', tell callback steps x status w = (.ok (), w') ∧ w'.settings = w.settings := by
  cases callback with
  | none => exact ⟨w, rfl, rfl⟩
  | some report =>
    have hquiet := hcallback report rfl
    exact ⟨_, Prod.ext (hquiet.returns steps status w) rfl, hquiet.settings steps status w⟩

/-- Quiet callbacks leave the point alone. -/
theorem leaves_of_quiet {callback : Option (Callback S E)} {x : Value}
    (hcallback : ∀ report ∈ callback, Quiet report x) :
    ∀ report ∈ callback, ∀ steps status, (report steps x status).Leaves x :=
  fun report hreport => (hcallback report hreport).leaves

variable [SingularValues S] {df ddf : Evaluator S E}
variable {G H : DenseMatrix S → Except Fault (DenseMatrix S)} {limits : Limits S}
variable {callback : Option (Callback S E)} {r : Ref} {w w' : World S E} {x m : DenseMatrix S}

/-- A pure gradient whose norm is known has a value, and touches neither point nor settings. -/
theorem exists_value_of_gradientNorm (hdf : df.Computes G) (hm : w.store.get? r = some m) {norm : S}
    (h : gradientNorm df (.matrix r) w = (.ok norm, w')) :
    ∃ g, G m = .ok g ∧ norm = g.norm ∧ w'.store.get? r = some m ∧ w'.settings = w.settings := by
  obtain ⟨a, hasked, -⟩ := gradientNorm_eq_ok_iff.mp h
  rcases hg : G m with cause | g
  · exact absurd hasked (hdf.refuses hm hg a w')
  · obtain ⟨w₁, hnorm, hm₁, hsettings⟩ := gradientNorm_of_computes hdf hm hg
    obtain ⟨hvalue, rfl⟩ := Prod.mk.inj (hnorm.symm.trans h)
    exact ⟨g, rfl, (Except.ok.inj hvalue).symm, hm₁, hsettings⟩

/-- A pure step that returns a status carried out the outcome at the values of gradient and
Hessian. -/
theorem exists_outcome_of_step (hdf : df.Computes G) (hddf : ddf.Computes H)
    (hm : w.store.get? r = some m) {status : Status}
    (h : Newton.step df ddf (.matrix r) w = (.ok status, w')) :
    m.isVector = true ∧ ∃ g b o, G m = .ok g ∧ H m = .ok b ∧
      Newton.outcome w.settings.factor m g b = .ok o ∧ status = o.status ∧
      w'.store.get? r = some (pointAfter m (.ok o)) ∧ w'.settings = w.settings := by
  obtain ⟨g, b, hvector, hg, hb⟩ := Newton.exists_values_of_step_eq_ok hdf hddf hm h
  obtain ⟨w₂, hm₂, hsettings, hstep⟩ := Newton.step_of_computes hdf hddf hm hvector hg hb
  rw [h] at hstep
  rcases ho : Newton.outcome w.settings.factor m g b with cause | o
  · rw [ho] at hstep
    cases hstep
  · rw [ho] at hstep
    obtain ⟨hstatus, rfl⟩ := Prod.mk.inj hstep
    exact ⟨hvector, g, b, o, hg, hb, ho, Except.ok.inj hstatus,
      StepOutcome.get?_settle hm₂, hsettings⟩

/-- **The stages of a run show the orbit** of its start. -/
theorem Course.exists_shows (hdf : df.Computes G) (hddf : ddf.Computes H)
    (hcallback : ∀ report ∈ callback, Quiet report (.matrix r)) (hx : w.store.get? r = some x)
    {p : Progress S} {stage : Nat → Stage S E}
    (h : Course df ddf limits callback (.matrix r) w p stage) {k : Nat} (hk : k ≤ p.steps) :
    ∃ s, orbit G H w.settings.factor x k = some s ∧ Shows w.settings (stage k) s := by
  induction k with
  | zero =>
    obtain ⟨g, hg, hnorm, -, hsettings⟩ := exists_value_of_gradientNorm hdf hx h.starts.evaluates
    exact ⟨⟨x, .success, g.norm⟩, standing?_eq_some_iff.mpr ⟨g, hg, rfl⟩,
      h.starts.point.trans hx, h.starts.status, hnorm, hsettings⟩
  | succ k ih =>
    obtain ⟨t, ht, hshows⟩ := ih (Nat.le_of_succ_le hk)
    have hm : (stage k).world.store.get? r = some t.point :=
      (h.stands (Nat.le_of_succ_le hk)).trans hshows.point
    -- the step, the callback and the gradient, in the order of the calls
    obtain ⟨w₁, w₂, hstep, hpoint₁, htell, hpoint₂, hnorm⟩ := (h.follows k hk).moves
    obtain ⟨hvector, g, b, o, hg, hb, ho, hstatus, hm₁, hsettings₁⟩ :=
      exists_outcome_of_step hdf hddf hm hstep
    obtain ⟨w₃, htell', hsettings₂⟩ := tell_of_quiet hcallback (k + 1) (stage (k + 1)).status w₁
    obtain rfl := congrArg Prod.snd (htell.symm.trans htell')
    have hm₂ : w₂.store.get? r = some (pointAfter t.point (.ok o)) :=
      hpoint₂.trans (hpoint₁.symm.trans hm₁)
    obtain ⟨g', hg', hvalue, -, hsettings₃⟩ := exists_value_of_gradientNorm hdf hm₂ hnorm
    rw [hshows.settings_eq] at ho hsettings₁
    refine ⟨⟨pointAfter t.point (.ok o), o.status, g'.norm⟩, ?_, ?_⟩
    · rw [orbit_succ ht]
      exact next?_eq_some_iff.mpr
        ⟨hvector, g, b, o, hg, hb, ho, standing?_eq_some_iff.mpr ⟨g', hg', rfl⟩⟩
    · exact ⟨hpoint₁.symm.trans hm₁, hstatus, hvalue,
        hsettings₃.trans (hsettings₂.trans hsettings₁)⟩

/-- A step of the orbit is an advance of the iteration. -/
theorem exists_advance_of_next? (hdf : df.Computes G) (hddf : ddf.Computes H)
    (hcallback : ∀ report ∈ callback, Quiet report (.matrix r)) (hm : w.store.get? r = some m)
    {s : Standing S} (hs : next? G H w.settings.factor m = some s) (p : Progress S) :
    ∃ p' w', advance df ddf limits callback (.matrix r) p w = (.ok p', w') ∧
      p'.steps = p.steps + 1 := by
  obtain ⟨hvector, g, b, o, hg, hb, ho, hstanding⟩ := next?_eq_some_iff.mp hs
  obtain ⟨g', hg', -⟩ := standing?_eq_some_iff.mp hstanding
  obtain ⟨w₁, hm₁, -, hstep⟩ := Newton.step_of_computes hdf hddf hm hvector hg hb
  rw [ho] at hstep
  have hm₂ : (o.carryOut r m w₁).held (.matrix r) = some (pointAfter m (.ok o)) :=
    StepOutcome.get?_settle hm₁
  obtain ⟨w₃, htell, -⟩ := tell_of_quiet hcallback (p.steps + 1) o.status (o.carryOut r m w₁)
  have hm₃ : w₃.held (.matrix r) = some (pointAfter m (.ok o)) :=
    (leaves_tell fun report hr => leaves_of_quiet hcallback report hr _ _).held_of_eq htell hm₂
  obtain ⟨w₄, hnorm, -⟩ := gradientNorm_of_computes hdf hm₃ hg'
  exact ⟨_, w₄, advance_eq_ok_iff.mpr ⟨r, o.status, _, w₃, _, rfl, hstep, htell, hnorm, rfl⟩, rfl⟩

/-- What an iteration knows of where it stands, of the orbit that it followed. -/
theorem Shows.isOver_eq {settings : Settings S} {stage : Stage S E} {s : Standing S}
    {p : Progress S} (h : Shows settings stage s) (hstatus : p.status = stage.status)
    (hnorm : p.gradientNorm = stage.norm) : isOver limits p = s.isOver limits p.steps := by
  obtain ⟨steps, status, norm, history⟩ := p
  obtain rfl : status = s.status := hstatus.trans h.status
  obtain rfl : norm = s.norm := hnorm.trans h.norm
  rfl

/-- Before it came to a stand, an iteration stood at every smaller number of steps and was not over
there. -/
theorem Reached.exists_before {x : Value} {p : Progress S}
    (h : Reached df ddf limits callback x w p w') {j : Nat} (hj : j < p.steps) :
    ∃ q w₁, Reached df ddf limits callback x w q w₁ ∧ q.steps = j ∧ isOver limits q = false := by
  induction h with
  | start _ => exact absurd hj (Nat.not_lt_zero j)
  | @advance p p' w₁ w₂ hp hgo hadv ih =>
    obtain ⟨_, _, _, _, _, -, -, -, -, rfl⟩ := advance_eq_ok_iff.mp hadv
    rcases Nat.lt_succ_iff_lt_or_eq.mp hj with hlt | rfl
    · exact ih hlt
    · exact ⟨p, w₁, hp, rfl, hgo⟩

/-- Wherever an iteration stands it shows the orbit. -/
theorem Reached.exists_standing (hdf : df.Computes G) (hddf : ddf.Computes H)
    (hcallback : ∀ report ∈ callback, Quiet report (.matrix r)) (hx : w.store.get? r = some x)
    {p : Progress S} (h : Reached df ddf limits callback (.matrix r) w p w') :
    ∃ s, orbit G H w.settings.factor x p.steps = some s ∧
      isOver limits p = s.isOver limits p.steps ∧
      w'.store.get? r = some s.point ∧ w'.settings = w.settings := by
  obtain ⟨stage, hcourse, rfl, -⟩ := h.exists_course (hdf.leaves _ _) (hddf.leaves _ _)
    (leaves_of_quiet hcallback) (fun q hq => Value.matrix.inj hq ▸ Store.lt_size_of_get? hx)
  obtain ⟨s, hs, hshows⟩ := hcourse.exists_shows hdf hddf hcallback hx (Nat.le_refl _)
  exact ⟨s, hs, hshows.isOver_eq hcourse.status hcourse.gradientNorm,
    (hcourse.stands (Nat.le_refl _)).trans hshows.point, hshows.settings_eq⟩

/-- **An iteration comes as far as the orbit goes**, if it is not over before. -/
theorem exists_reached_of_orbit (hdf : df.Computes G) (hddf : ddf.Computes H)
    (hcallback : ∀ report ∈ callback, Quiet report (.matrix r)) (hx : w.store.get? r = some x)
    {n : Nat} {s : Standing S} (hs : orbit G H w.settings.factor x n = some s)
    (hgo : ∀ j < n, ∃ t, orbit G H w.settings.factor x j = some t ∧ t.isOver limits j = false) :
    ∃ p w', Reached df ddf limits callback (.matrix r) w p w' ∧ p.steps = n := by
  induction n generalizing s with
  | zero =>
    obtain ⟨g, hg, rfl⟩ := standing?_eq_some_iff.mp hs
    obtain ⟨w₁, hnorm, -⟩ := gradientNorm_of_computes hdf hx hg
    exact ⟨_, w₁, .start hnorm, rfl⟩
  | succ n ih =>
    obtain ⟨t, ht, hnot⟩ := hgo n (Nat.lt_succ_self n)
    obtain ⟨p, w₁, hp, rfl⟩ := ih ht fun j hj => hgo j (Nat.lt_succ_of_lt hj)
    -- the iteration shows the standing before the last, and is not over there
    obtain ⟨t', ht', hover, hm, hsettings⟩ := hp.exists_standing hdf hddf hcallback hx
    obtain rfl := Option.some.inj (ht'.symm.trans ht)
    rw [orbit_succ ht, ← hsettings] at hs
    obtain ⟨p', w', hadv, hsteps⟩ := exists_advance_of_next? hdf hddf hcallback hm hs p
    exact ⟨p', w', hp.advance (hover.trans hnot) hadv, hsteps⟩

/-! ## (5) What runs return, leave and tell -/

/-- The progress of an iteration that stands at `s` after `n` steps from `x`. -/
def progressOf (G H : DenseMatrix S → Except Fault (DenseMatrix S)) (factor : S)
    (keepHistory : Bool) (x : DenseMatrix S) (n : Nat) (s : Standing S) : Progress S :=
  ⟨n, s.status, s.norm, if keepHistory then pathOf G H factor x n else []⟩

/-- What the callback of a run is **told**, in the order of the calls, as seen under watch. -/
def toldIn (fuel : Nat) (df ddf : Evaluator S E) (limits : Limits S)
    (callback : Option (Callback S E)) (x : Value) (w : World S E) :
    List (Nat × Value × Option (DenseMatrix S) × Status) :=
  (run fuel (df.watched .gradient) (ddf.watched .hessian) limits (callback.map Callback.watched) x
    (w.watched [])).2.caller.2.filterMap Call.told?

section Read

variable {p : Progress S} {stage : Nat → Stage S E}

/-- The history of a course is the points of the orbit. -/
theorem Course.history_eq (h : Course df ddf limits callback (.matrix r) w p stage)
    (hshows : ∀ k ≤ p.steps, ∃ s, orbit G H w.settings.factor x k = some s ∧
      Shows w.settings (stage k) s) :
    p.history = if limits.keepHistory then pathOf G H w.settings.factor x p.steps else [] := by
  have hpoint : ∀ k ∈ List.range p.steps,
      (orbit G H w.settings.factor x (k + 1)).map Standing.point = (stage (k + 1)).point := by
    intro k hk
    obtain ⟨s, hs, hstage⟩ := hshows (k + 1) (List.mem_range.mp hk)
    rw [hs, hstage.point]
    rfl
  have hhistory := h.history
  cases hkeep : limits.keepHistory with
  | false =>
    rw [hkeep] at hhistory
    exact List.map_eq_nil_iff.mp hhistory
  | true =>
    rw [hkeep, if_pos rfl] at hhistory
    rw [if_pos rfl, pathOf, List.filterMap_congr hpoint]
    -- the points are those that are there of a list of which all are there
    have hids := congrArg (List.filterMap id) hhistory
    rwa [List.filterMap_map, List.filterMap_map, Function.id_comp, Function.id_comp,
      List.filterMap_some] at hids

/-- What the callback is told in a course is told of the orbit. -/
theorem Course.tellings_eq (h : Course df ddf limits callback (.matrix r) w p stage)
    (hshows : ∀ k ≤ p.steps, ∃ s, orbit G H w.settings.factor x k = some s ∧
      Shows w.settings (stage k) s) :
    (callsOf stage p.steps).filterMap Call.told? =
      if callback.isSome then tellingsOf G H w.settings.factor r x p.steps else [] := by
  rw [h.filterMap_told? (Nat.le_refl _), tellingsOf]
  congr 1
  refine (List.filterMap_eq_map_iff_forall_eq_some.mpr fun k hk => ?_).symm
  obtain ⟨s, hs, hstage⟩ := hshows (k + 1) (List.mem_range.mp hk)
  rw [hs, hstage.point, hstage.status]
  rfl

end Read

/-- **A run that returns ended the orbit**: its result is where the limits end the orbit of the
start, the point holds what it holds there, the settings are as before, and the callback was told of
the orbit. -/
theorem exists_endsAt_of_run (hdf : df.Computes G) (hddf : ddf.Computes H)
    (hcallback : ∀ report ∈ callback, Quiet report (.matrix r)) (hx : w.store.get? r = some x)
    {fuel : Nat} {result : Run S}
    (hrun : run fuel df ddf limits callback (.matrix r) w = (.ok (some result), w')) :
    ∃ n s, EndsAt G H w.settings.factor limits x n s ∧ n ≤ fuel ∧
      result = runOf limits (.matrix r)
        (progressOf G H w.settings.factor limits.keepHistory x n s) ∧
      w'.store.get? r = some s.point ∧ w'.settings = w.settings ∧
      toldIn fuel df ddf limits callback (.matrix r) w =
        if callback.isSome then tellingsOf G H w.settings.factor r x n else [] := by
  obtain ⟨hacc, p, w₁, hp, hover, hsteps, rfl, rfl⟩ := run_eq_some_iff.mp hrun
  obtain ⟨stage, hcourse, rfl, -, hwatched⟩ := hp.exists_course (hdf.leaves _ _) (hddf.leaves _ _)
    (leaves_of_quiet hcallback) (fun q hq => Value.matrix.inj hq ▸ Store.lt_size_of_get? hx)
  have hshows : ∀ k ≤ p.steps,
      ∃ s, orbit G H w.settings.factor x k = some s ∧ Shows w.settings (stage k) s :=
    fun k hk => hcourse.exists_shows hdf hddf hcallback hx hk
  obtain ⟨s, hs, hlast⟩ := hshows p.steps (Nat.le_refl _)
  have hprogress : p = progressOf G H w.settings.factor limits.keepHistory x p.steps s := by
    rw [progressOf, ← hcourse.history_eq hshows, ← hlast.status, ← hlast.norm, ← hcourse.status,
      ← hcourse.gradientNorm]
  refine ⟨p.steps, s, ⟨hs, ?_, ?_⟩, hsteps,
    congrArg (runOf limits (.matrix r)) hprogress, ?_, ?_, ?_⟩
  · rw [← hlast.isOver_eq hcourse.status hcourse.gradientNorm]
    exact hover
  · intro j hj
    obtain ⟨q, w₂, hq, rfl, hgo⟩ := hp.exists_before hj
    obtain ⟨t, ht, ht', -⟩ := hq.exists_standing hdf hddf hcallback hx
    exact ⟨t, ht, ht'.symm.trans hgo⟩
  · exact (hcourse.stands (Nat.le_refl _)).trans hlast.point
  · exact hlast.settings_eq
  · have hrun' := run_eq_some_iff.mpr ⟨hacc, p, _, hwatched, hover, hsteps, rfl, rfl⟩
    rw [toldIn, hrun']
    exact hcourse.tellings_eq hshows

/-- **Where limits end the orbit a run returns**, if it has fuel for the steps. -/
theorem exists_run_of_endsAt (hdf : df.Computes G) (hddf : ddf.Computes H)
    (hcallback : ∀ report ∈ callback, Quiet report (.matrix r)) (hx : w.store.get? r = some x)
    (hacc : Accepted limits) {fuel n : Nat} {s : Standing S}
    (hend : EndsAt G H w.settings.factor limits x n s) (hfuel : n ≤ fuel) :
    ∃ result w', run fuel df ddf limits callback (.matrix r) w = (.ok (some result), w') := by
  obtain ⟨p, w₁, hp, rfl⟩ := exists_reached_of_orbit hdf hddf hcallback hx hend.stands hend.goesOn
  obtain ⟨t, ht, hover, -⟩ := hp.exists_standing hdf hddf hcallback hx
  obtain rfl := Option.some.inj (ht.symm.trans hend.stands)
  exact ⟨_, _, run_eq_some_iff.mpr ⟨hacc, p, w₁, hp, hover.trans hend.isEnd, hfuel, rfl, rfl⟩⟩

end Iteration

end NewtonRaphson
