import NewtonRaphson.Proofs.Iteration.Refusal
import NewtonRaphson.Proofs.Journal.Records
import NewtonRaphson.Proofs.Newton.Decision

/-! # The records of an iteration

Each step that returns a status hands one record to the journal, and each iteration that returns one
more.

* **`Action.KeepsTo R`** — an action that does no more to the journal than a background lets happen.
* **`Newton.examine`** — all of a step but its conclusion; `Newton.recordsOf` are the records of a
  step.
* **`Iteration.Takes`** — the stands from which an iteration takes a step. There is one for each
  number of steps (`Iteration.Reached.unique`), and none beyond a stand that leads nowhere
  (`Iteration.Reached.advances_of_lt`).
* **`Iteration.Logs … records`** — the records of all the steps that an iteration takes.
* **`Iteration.records_agree`** — records and statuses agree, for single steps and for whole
  iterations. -/

namespace NewtonRaphson

variable {S E α β : Type}

/-! ## (1) The background of a step -/

/-- An action **keeps to** a background if that is all that happens to the journal, however the
action ends. -/
def Action.KeepsTo (R : Journal S → Journal S → Prop) (a : Action S E α) : Prop :=
  ∀ w, R w.journal (a w).2.journal

namespace Action

variable {R : Journal S → Journal S → Prop}

/-- An action that keeps to a background, seen from the world it came to. -/
theorem KeepsTo.of_eq {a : Action S E α} (ha : a.KeepsTo R) {w w' : World S E}
    {out : Except Fault α} (h : a w = (out, w')) : R w.journal w'.journal := by
  have hw := ha w
  rwa [h] at hw

variable (hR : Journal.IsBackground R)
include hR

/-- An action that only asks keeps to every background. -/
theorem Asks.keepsTo {a : Action S E α} (ha : a.Asks) : a.KeepsTo R := by
  intro w
  rw [ha w]
  exact hR.refl w.journal

/-- Actions one after the other keep to a background if both do. -/
theorem KeepsTo.bind {a : Action S E α} {f : α → Action S E β} (ha : a.KeepsTo R)
    (hf : ∀ v, (f v).KeepsTo R) : (a >>= f).KeepsTo R := by
  intro w
  rcases h : a w with ⟨cause | v, w₁⟩
  · rw [bind_of_error h]
    exact ha.of_eq h
  · rw [bind_of_ok h]
    exact hR.trans (ha.of_eq h) (hf v w₁)

end Action

/-! ## (2) The record of a step -/

/-- The level at which a step with a status is recorded. -/
def Status.level : Status → Int
  | success => Level.debug
  | singularHessian | numericalError => Level.warning

namespace Newton

/-- Asking an evaluator keeps to the background of the evaluator. -/
theorem keepsTo_evaluate {R : Journal S → Journal S → Prop} (hR : Journal.IsBackground R)
    {which : Derivative} {f : Evaluator S E} {x : Value} (hf : (f x).KeepsTo R) :
    (evaluate which f x).KeepsTo R := by
  refine hf.bind hR fun v => ?_
  cases v with
  | matrix r => exact (Action.asks_pure r).keepsTo hR
  | plain d => exact (Action.asks_fail _).keepsTo hR

variable [SingularValues S]

/-- **A step up to its conclusion**: the point is checked, both evaluators are asked, and the
outcome is worked out. What it returns is the reference of the point, the point, and the outcome. -/
def examine (df ddf : Evaluator S E) : Value → Action S E (Ref × DenseMatrix S × StepOutcome S)
  | .plain d => Action.fail (.pointKind d.kindName)
  | .matrix r => do
    let start ← Action.read r
    if !start.isVector then Action.fail (.pointShape start.shape)
    let g ← evaluate .gradient df (.matrix r)
    let h ← evaluate .hessian ddf (.matrix r)
    let w ← Action.look
    let x := w.store.get r
    let o ← outcome w.settings.factor x (w.store.get g) (w.store.get h)
    return (r, x, o)

/-- A step is its examination and its conclusion. -/
theorem step_eq_examine (df ddf : Evaluator S E) (x : Value) :
    step df ddf x = examine df ddf x >>= fun (r, m, o) => conclude r m o := by
  cases x with
  | plain d => rfl
  | matrix r =>
    simp only [step, examine, bind_assoc]
    congr 1
    funext start
    split <;> simp [bind_assoc]

/-- An examination does to the journal what the evaluators do. -/
theorem keepsTo_examine {R : Journal S → Journal S → Prop} (hR : Journal.IsBackground R)
    {df ddf : Evaluator S E} {x : Value} (hdf : (df x).KeepsTo R) (hddf : (ddf x).KeepsTo R) :
    (examine df ddf x).KeepsTo R := by
  cases x with
  | plain d => exact (Action.asks_fail _).keepsTo hR
  | matrix r =>
    refine ((Action.asks_read r).keepsTo hR).bind hR fun start => ?_
    split
    · exact (Action.asks_fail _).keepsTo hR
    · refine (keepsTo_evaluate hR hdf).bind hR fun g =>
        (keepsTo_evaluate hR hddf).bind hR fun h => ?_
      refine (Action.asks_look.keepsTo hR).bind hR fun w => Action.KeepsTo.bind hR ?_ fun o => ?_
      · exact (Action.asks_ofExcept _).keepsTo hR
      · exact (Action.asks_pure _).keepsTo hR

/-- A step whose examination is refused ends there. -/
theorem step_of_examine_eq_error {df ddf : Evaluator S E} {x : Value} {w w₁ : World S E}
    {cause : Fault} (h : examine df ddf x w = (.error cause, w₁)) :
    step df ddf x w = (.error cause, w₁) := by
  rw [step_eq_examine, Action.bind_of_error h]

/-- Otherwise it carries out the outcome. -/
theorem step_of_examine_eq_ok {df ddf : Evaluator S E} {x : Value} {w w₁ : World S E} {r : Ref}
    {m : DenseMatrix S} {o : StepOutcome S} (h : examine df ddf x w = (.ok (r, m, o), w₁)) :
    step df ddf x w = (.ok o.status, o.carryOut r m w₁) := by
  rw [step_eq_examine, Action.bind_of_ok h]
  exact conclude_apply r m o w₁

/-- The records of a step: that of its outcome, if it has one. -/
def recordsOf (df ddf : Evaluator S E) (x : Value) (w : World S E) : List (Record S) :=
  match (examine df ddf x w).1 with
  | .ok (_, m, o) => [o.report m]
  | .error _ => []

/-- **A step hands its records to the journal** that its evaluators left, and does nothing else to
it. -/
theorem hears_step (R : Journal S → Journal S → Prop) (hR : Journal.IsBackground R)
    (df ddf : Evaluator S E) (x : Value) (w : World S E) :
    (examine df ddf x w).2.journal.Hears R (recordsOf df ddf x w) (step df ddf x w).2.journal := by
  rw [recordsOf]
  rcases h : examine df ddf x w with ⟨cause | ⟨r, m, o⟩, w₁⟩
  · rw [step_of_examine_eq_error h]
    exact .background (hR.refl _)
  · rw [step_of_examine_eq_ok h]
    exact .record _ _

/-- A step has at most one record. -/
theorem length_recordsOf_le (df ddf : Evaluator S E) (x : Value) (w : World S E) :
    (recordsOf df ddf x w).length ≤ 1 := by
  rw [recordsOf]
  split
  · exact Nat.le_refl 1
  · exact Nat.zero_le 1

/-- The record of a step is that of the logger of steps, at one of two levels. -/
theorem of_mem_recordsOf {df ddf : Evaluator S E} {x : Value} {w : World S E} {record : Record S}
    (h : record ∈ recordsOf df ddf x w) :
    record.logger = Journal.stepLogger ∧
      (record.level = Level.debug ∨ record.level = Level.warning) := by
  rw [recordsOf] at h
  split at h
  · next r m o ho =>
    obtain rfl := List.mem_singleton.mp h
    cases o with
    | moved point way => exact ⟨rfl, .inl rfl⟩
    | nonFinite => exact ⟨rfl, .inr rfl⟩
    | singular cause => exact ⟨rfl, .inr rfl⟩
    | overflow => exact ⟨rfl, .inr rfl⟩
  · cases h

/-- A step that is refused has no record. -/
theorem recordsOf_of_error {df ddf : Evaluator S E} {x : Value} {w : World S E} {cause : Fault}
    (hstep : (step df ddf x w).1 = .error cause) : recordsOf df ddf x w = [] := by
  rw [recordsOf]
  rcases h : examine df ddf x w with ⟨refusal | ⟨r, m, o⟩, w₁⟩
  · rfl
  · rw [step_of_examine_eq_ok h] at hstep
    cases hstep

/-- A step that returns a status has one record, at the level of the status. -/
theorem exists_recordsOf_eq {df ddf : Evaluator S E} {x : Value} {w : World S E} {status : Status}
    (hstep : (step df ddf x w).1 = .ok status) :
    ∃ record, recordsOf df ddf x w = [record] ∧ record.level = status.level := by
  rw [recordsOf]
  rcases h : examine df ddf x w with ⟨cause | ⟨r, m, o⟩, w₁⟩
  · rw [step_of_examine_eq_error h] at hstep
    cases hstep
  · rw [step_of_examine_eq_ok h] at hstep
    obtain rfl := Except.ok.inj hstep
    refine ⟨o.report m, rfl, ?_⟩
    cases o <;> rfl

end Newton

namespace Iteration

/-! ## (3) The stands of an iteration, one after the other -/

section Background

variable {R : Journal S → Journal S → Prop} (hR : Journal.IsBackground R)
include hR

/-- Taking the norm of a gradient keeps to the background of its evaluator. -/
theorem keepsTo_gradientNorm [Scalar S] {df : Evaluator S E} {x : Value} (hdf : (df x).KeepsTo R) :
    (gradientNorm df x : Action S E S).KeepsTo R := by
  refine hdf.bind hR fun v => ?_
  cases v with
  | matrix r =>
    exact ((Action.asks_read r).keepsTo hR).bind hR fun m => (Action.asks_pure _).keepsTo hR
  | plain d => exact (Action.asks_fail _).keepsTo hR

/-- Telling a callback keeps to its background. -/
theorem keepsTo_tell {callback : Option (Callback S E)} {x : Value}
    (hcallback : ∀ report ∈ callback, ∀ n status, (report n x status).KeepsTo R) (n : Nat)
    (status : Status) : (tell callback n x status).KeepsTo R := by
  cases callback with
  | none => exact (Action.asks_pure ()).keepsTo hR
  | some report => exact hcallback report rfl n status

end Background

variable [SingularValues S]

section Stands

variable {df ddf : Evaluator S E} {limits : Limits S} {callback : Option (Callback S E)} {x : Value}
variable {w₀ w v : World S E} {p q : Progress S}

/-- An advance counts one step. -/
theorem steps_of_advance {p' : Progress S} {w' : World S E}
    (h : advance df ddf limits callback x p w = (.ok p', w')) : p'.steps = p.steps + 1 := by
  obtain ⟨_, _, _, _, _, -, -, -, -, rfl⟩ := advance_eq_ok_iff.mp h
  rfl

/-- **There is one stand for each number of steps.** -/
theorem Reached.unique (h : Reached df ddf limits callback x w₀ p w)
    (h' : Reached df ddf limits callback x w₀ q v) (hsteps : p.steps = q.steps) :
    p = q ∧ w = v := by
  induction h generalizing q v with
  | start hnorm =>
    cases h' with
    | start hnorm' =>
      rw [hnorm] at hnorm'
      cases hnorm'
      exact ⟨rfl, rfl⟩
    | advance hq hgo hadv =>
      rw [steps_of_advance hadv] at hsteps
      cases hsteps
  | advance hp hgo hadv ih =>
    rw [steps_of_advance hadv] at hsteps
    cases h' with
    | start hnorm' => cases hsteps
    | advance hq hgo' hadv' =>
      rw [steps_of_advance hadv'] at hsteps
      obtain ⟨rfl, rfl⟩ := ih hq (Nat.succ.inj hsteps)
      rw [hadv] at hadv'
      cases hadv'
      exact ⟨rfl, rfl⟩

/-- From a stand with fewer steps than another one the iteration advanced. -/
theorem Reached.advances_of_lt (h : Reached df ddf limits callback x w₀ p w)
    (h' : Reached df ddf limits callback x w₀ q v) (hlt : p.steps < q.steps) :
    isOver limits p = false ∧ ∃ p' w',
      Iteration.advance df ddf limits callback x p w = (.ok p', w') := by
  induction h' with
  | start hnorm => exact absurd hlt (Nat.not_lt_zero _)
  | @advance q q' v v' hq hgo hadv ih =>
    rw [steps_of_advance hadv] at hlt
    rcases Nat.lt_succ_iff_lt_or_eq.mp hlt with hlt | heq
    · exact ih hlt
    · obtain ⟨rfl, rfl⟩ := h.unique hq heq
      exact ⟨hgo, q', v', hadv⟩

/-- **The stands from which an iteration takes a step**: its limits are accepted, and it is not over
there. -/
structure Takes (df ddf : Evaluator S E) (limits : Limits S) (callback : Option (Callback S E))
    (x : Value) (w₀ : World S E) (p : Progress S) (w : World S E) : Prop where
  /-- The iteration starts. -/
  accepted : Accepted limits
  /-- It comes to the stand. -/
  reached : Reached df ddf limits callback x w₀ p w
  /-- It goes on there. -/
  goesOn : isOver limits p = false

/-- A list is that of **the records of all steps** that an iteration takes, in their order: each
record is that of the step with its number, and a step has none in the list only if it has none at
all. -/
structure Logs (df ddf : Evaluator S E) (limits : Limits S) (callback : Option (Callback S E))
    (x : Value) (w₀ : World S E) (records : List (Record S)) : Prop where
  /-- For each record a step is taken. -/
  taken : ∀ i < records.length, ∃ p w, Takes df ddf limits callback x w₀ p w ∧ p.steps = i
  /-- For each step its record is in the list. -/
  record_eq : ∀ p w, Takes df ddf limits callback x w₀ p w →
    Newton.recordsOf df ddf x w = (records[p.steps]?).toList

/-- All of these are records of the logger of steps. -/
theorem Logs.of_mem {records : List (Record S)} (h : Logs df ddf limits callback x w₀ records)
    {record : Record S} (hmem : record ∈ records) :
    record.logger = Journal.stepLogger ∧
      (record.level = Level.debug ∨ record.level = Level.warning) := by
  obtain ⟨i, hi, rfl⟩ := List.getElem_of_mem hmem
  obtain ⟨p, w, hp, rfl⟩ := h.taken i hi
  have hstep : records[p.steps] ∈ Newton.recordsOf df ddf x w := by
    rw [h.record_eq p w hp, List.getElem?_eq_getElem hi]
    exact List.mem_singleton_self _
  exact Newton.of_mem_recordsOf hstep

end Stands

omit [SingularValues S] in
/-- A record of the logger of steps at one of its levels is a report. -/
theorem isReport_of_step {record : Record S} (h : record.logger = Journal.stepLogger ∧
    (record.level = Level.debug ∨ record.level = Level.warning)) : Journal.IsReport record := by
  refine ⟨.inl h.1, ?_⟩
  rcases h.2 with hlevel | hlevel <;> rw [hlevel] <;> decide

/-! ## (4) The records up to a stand -/

/-- The levels of the records of `n` steps of which the last returned a status, and those before it
succeeded. -/
def levelsOf (n : Nat) (status : Status) : List Int :=
  if status = .success then List.replicate n Level.debug
  else List.replicate (n - 1) Level.debug ++ [Level.warning]

/-- After steps that succeeded, one more step adds its level. -/
theorem levelsOf_succ (n : Nat) (status : Status) :
    levelsOf (n + 1) status = levelsOf n .success ++ [status.level] := by
  cases status with
  | success => exact List.replicate_succ'
  | singularHessian => rfl
  | numericalError => rfl

section Runs

variable {df ddf : Evaluator S E} {limits : Limits S} {callback : Option (Callback S E)} {x : Value}
variable {w₀ w : World S E} {p : Progress S}

/-- The records of the steps up to a stand: there is one for each step, each is that of the step
with its number, and they have the levels of the statuses. -/
structure LogsTo (df ddf : Evaluator S E) (limits : Limits S) (callback : Option (Callback S E))
    (x : Value) (w₀ : World S E) (p : Progress S) (w : World S E)
    (records : List (Record S)) : Prop where
  length_eq : records.length = p.steps
  taken : ∀ i < p.steps, ∃ q v, Takes df ddf limits callback x w₀ q v ∧ q.steps = i
  record_eq : ∀ q v, Takes df ddf limits callback x w₀ q v → q.steps < p.steps →
    Newton.recordsOf df ddf x v = (records[q.steps]?).toList
  levels : records.map (·.level) = levelsOf p.steps p.status

/-- **Every stand has its records**, and the journal heard them on the way, by induction on the
advances. -/
theorem Reached.exists_logsTo {R : Journal S → Journal S → Prop} (hR : Journal.IsBackground R)
    (hdf : (df x).KeepsTo R) (hddf : (ddf x).KeepsTo R)
    (hcallback : ∀ report ∈ callback, ∀ n status, (report n x status).KeepsTo R)
    (hacc : Accepted limits) (h : Reached df ddf limits callback x w₀ p w) :
    ∃ records, LogsTo df ddf limits callback x w₀ p w records ∧
      w₀.journal.Hears R records w.journal := by
  induction h with
  | start hnorm =>
    exact ⟨[], ⟨rfl, nofun, nofun, rfl⟩, .background ((keepsTo_gradientNorm hR hdf).of_eq hnorm)⟩
  | @advance p p' w w' hp hgo hadv ih =>
    obtain ⟨records, hrecords, hheard⟩ := ih
    have htakes : Takes df ddf limits callback x w₀ p w := ⟨hacc, hp, hgo⟩
    obtain ⟨r, status, w₁, w₂, norm, -, hstep, htell, hnorm, rfl⟩ := advance_eq_ok_iff.mp hadv
    obtain ⟨record, hrecord, hlevel⟩ :=
      Newton.exists_recordsOf_eq (show (Newton.step df ddf x w).1 = .ok status by rw [hstep])
    have hsuccess : p.status = .success := (isOver_eq_false_iff.mp hgo).1
    refine ⟨records ++ [record], ⟨?_, ?_, ?_, ?_⟩, ?_⟩
    · rw [List.length_append, hrecords.length_eq]
      rfl
    · intro i hi
      rcases Nat.lt_succ_iff_lt_or_eq.mp hi with hlt | rfl
      · exact hrecords.taken i hlt
      · exact ⟨p, w, htakes, rfl⟩
    · intro q v hq hlt
      rcases Nat.lt_succ_iff_lt_or_eq.mp hlt with hlt | heq
      · rw [hrecords.record_eq q v hq hlt,
          List.getElem?_append_left (by rwa [hrecords.length_eq])]
      · obtain ⟨rfl, rfl⟩ := hq.reached.unique hp heq
        rw [hrecord, ← hrecords.length_eq, List.getElem?_concat_length]
        rfl
    · rw [List.map_append, hrecords.levels, hsuccess]
      show levelsOf p.steps .success ++ [record.level] = levelsOf (p.steps + 1) status
      rw [levelsOf_succ, hlevel]
    · have hexamine := Newton.keepsTo_examine hR hdf hddf w
      have hrecorded := Newton.hears_step R hR df ddf x w
      rw [hstep, hrecord] at hrecorded
      have hafter := hR.trans ((keepsTo_tell hR hcallback _ _).of_eq htell)
        ((keepsTo_gradientNorm hR hdf).of_eq hnorm)
      exact hheard.append
        ((Journal.Hears.after_background hexamine hrecorded).before_background hafter)

/-- Where an iteration is over, the records up to there are all. -/
theorem LogsTo.logs_of_isOver {records : List (Record S)}
    (hp : Reached df ddf limits callback x w₀ p w) (hover : isOver limits p = true)
    (h : LogsTo df ddf limits callback x w₀ p w records) :
    Logs df ddf limits callback x w₀ records := by
  refine ⟨fun i hi => h.taken i (h.length_eq ▸ hi), fun q v hq => ?_⟩
  rcases Nat.lt_trichotomy q.steps p.steps with hlt | heq | hgt
  · exact h.record_eq q v hq hlt
  · -- the stand itself is none from which a step is taken
    obtain ⟨rfl, rfl⟩ := hq.reached.unique hp heq
    rw [hq.goesOn] at hover
    cases hover
  · rw [(hp.advances_of_lt hq.reached hgt).1] at hover
    cases hover

/-- Where an iteration goes on and yet cannot advance, the records up to there and that of the last
step, if it has one, are all. -/
theorem LogsTo.logs_of_stuck {records : List (Record S)}
    (hp : Takes df ddf limits callback x w₀ p w)
    (hstuck : ∀ p' w', advance df ddf limits callback x p w ≠ (.ok p', w'))
    (h : LogsTo df ddf limits callback x w₀ p w records) :
    Logs df ddf limits callback x w₀ (records ++ Newton.recordsOf df ddf x w) := by
  have hlast := Newton.length_recordsOf_le df ddf x w
  constructor
  · intro i hi
    rw [List.length_append, h.length_eq] at hi
    rcases Nat.lt_or_ge i p.steps with hlt | hge
    · exact h.taken i hlt
    · exact ⟨p, w, hp, by omega⟩
  · intro q v hq
    rcases Nat.lt_trichotomy q.steps p.steps with hlt | heq | hgt
    · rw [h.record_eq q v hq hlt, List.getElem?_append_left (by rwa [h.length_eq])]
    · obtain ⟨rfl, rfl⟩ := hq.reached.unique hp.reached heq
      rw [← h.length_eq, List.getElem?_append_right (Nat.le_refl _), Nat.sub_self]
      match hrecords : Newton.recordsOf df ddf x v with
      | [] => rfl
      | [record] => rfl
      | _ :: _ :: _ => rw [hrecords] at hlast; simp at hlast
    · obtain ⟨-, p', w', hadv⟩ := hp.reached.advances_of_lt hq.reached hgt
      exact absurd hadv (hstuck p' w')

section Heard

variable {R : Journal S → Journal S → Prop} (hR : Journal.IsBackground R)
variable (hdf : (df x).KeepsTo R) (hddf : (ddf x).KeepsTo R)
variable (hcallback : ∀ report ∈ callback, ∀ n status, (report n x status).KeepsTo R)
include hR hdf hddf hcallback

/-- **The records of an iteration that returns**: those of all its steps, and that of its end. -/
theorem exists_logs_of_run {fuel : Nat} {result : Run S} {w' : World S E}
    (hrun : run fuel df ddf limits callback x w₀ = (.ok (some result), w')) :
    ∃ steps, Logs df ddf limits callback x w₀ steps ∧ steps.length = result.final.steps ∧
      steps.map (·.level) = levelsOf result.final.steps result.final.status ∧
      w₀.journal.Hears R (steps ++
        [⟨Journal.iterationLogger, Level.info, .stopped result.final.steps result.reason⟩])
          w'.journal := by
  obtain ⟨hacc, q, w, hq, hover, -, rfl, rfl⟩ := run_eq_some_iff.mp hrun
  obtain ⟨steps, hsteps, hheard⟩ := hq.exists_logsTo hR hdf hddf hcallback hacc
  exact ⟨steps, hsteps.logs_of_isOver hq hover, hsteps.length_eq, hsteps.levels,
    hheard.append (.record _ _)⟩

/-- Where an iteration goes on and yet cannot advance, and nothing but background follows its step,
it hears the records of all its steps. -/
theorem exists_logs_of_stuck {w' : World S E} (hp : Takes df ddf limits callback x w₀ p w)
    (hstuck : ∀ p' v, advance df ddf limits callback x p w ≠ (.ok p', v))
    (hafter : R (Newton.step df ddf x w).2.journal w'.journal) :
    ∃ steps, Logs df ddf limits callback x w₀ steps ∧ w₀.journal.Hears R steps w'.journal := by
  obtain ⟨steps, hsteps, hheard⟩ := hp.reached.exists_logsTo hR hdf hddf hcallback hp.accepted
  refine ⟨_, hsteps.logs_of_stuck hp hstuck, hheard.append ?_⟩
  have hexamine := Newton.keepsTo_examine hR hdf hddf w
  exact (Journal.Hears.after_background hexamine
    (Newton.hears_step R hR df ddf x w)).before_background hafter

/-- **The records of an iteration that is refused**: those of all its steps that returned. -/
theorem exists_logs_of_run_error {fuel : Nat} {cause : Fault} {w' : World S E}
    (hrun : run fuel df ddf limits callback x w₀ = (.error cause, w')) :
    ∃ steps, Logs df ddf limits callback x w₀ steps ∧ w₀.journal.Hears R steps w'.journal := by
  by_cases hacc : Accepted limits
  · obtain ⟨n, v, hrefused⟩ := refusedAfter_of_run hrun
    cases hrefused with
    | limits hnot => exact absurd hacc hnot
    | start hnorm =>
      refine ⟨[], ⟨nofun, fun q v hq => ?_⟩,
        .background ((keepsTo_gradientNorm hR hdf).of_eq hnorm)⟩
      obtain ⟨norm, v', hnorm'⟩ := hq.reached.exists_start
      rw [hnorm] at hnorm'
      cases hnorm'
    | step hp hgo hstep =>
      refine exists_logs_of_stuck hR hdf hddf hcallback ⟨hacc, hp, hgo⟩ (fun p' v' hadv => ?_) ?_
      · obtain ⟨_, _, _, _, _, -, hstep', -⟩ := advance_eq_ok_iff.mp hadv
        rw [hstep] at hstep'
        cases hstep'
      · rw [hstep]
        exact hR.refl _
    | callback hp hgo hstep htell =>
      refine exists_logs_of_stuck hR hdf hddf hcallback ⟨hacc, hp, hgo⟩ (fun p' v' hadv => ?_) ?_
      · obtain ⟨_, _, _, _, _, -, hstep', htell', -⟩ := advance_eq_ok_iff.mp hadv
        rw [hstep] at hstep'
        cases hstep'
        rw [htell] at htell'
        cases htell'
      · rw [hstep]
        exact (keepsTo_tell hR hcallback _ _).of_eq htell
    | gradient hp hgo hstep htell hnorm =>
      refine exists_logs_of_stuck hR hdf hddf hcallback ⟨hacc, hp, hgo⟩ (fun p' v' hadv => ?_) ?_
      · obtain ⟨_, _, _, _, _, -, hstep', htell', hnorm', -⟩ := advance_eq_ok_iff.mp hadv
        rw [hstep] at hstep'
        cases hstep'
        rw [htell] at htell'
        cases htell'
        rw [hnorm] at hnorm'
        cases hnorm'
      · rw [hstep]
        exact hR.trans ((keepsTo_tell hR hcallback _ _).of_eq htell)
          ((keepsTo_gradientNorm hR hdf).of_eq hnorm)
  · rw [run_of_not_accepted hacc] at hrun
    cases hrun
    exact ⟨[], ⟨nofun, fun q v hq => absurd hq.accepted hacc⟩, .background (hR.refl _)⟩

end Heard

end Runs

/-! ## (5) Records and statuses -/

/-- A step and its status agree in the level of the record. -/
theorem level_iff {status : Status} :
    (status.level = Level.warning ↔ status = .numericalError ∨ status = .singularHessian) ∧
      (status.level = Level.debug ↔ status = .success) := by
  cases status <;> decide

/-- **Records and statuses agree.** A step hands no record to the journal that its evaluators leave
if it is refused, and otherwise exactly one: a warning exactly if the status is a numerical error or
a singular Hessian, a debugging record exactly if it is a success. An iteration whose evaluators and
callback write nothing hands in, if it returns, the records of all its steps in their order, as many
as it took, and then one that tells their number and the reason for the end; the records of the
steps are debugging records, but for a warning at the end exactly if the last status is no success.
If it is refused it hands in the records of the steps that returned. In a journal whose changes all
returned and whose level is at least one, if the evaluators and the callback leave the settings
alone, exactly those of the records that reach the level are printed, in their order and each
once. -/
theorem records_agree (df ddf : Evaluator Float E) (x : Value) (w : World Float E) :
    ((Newton.examine df ddf x w).2.journal.Hears Eq (Newton.recordsOf df ddf x w)
        (Newton.step df ddf x w).2.journal ∧
      (Journal.Reached (Newton.examine df ddf x w).2.journal →
        1 ≤ (Newton.examine df ddf x w).2.journal.level →
        Journal.Prints (Newton.examine df ddf x w).2.journal (Newton.step df ddf x w).2.journal
          (Newton.recordsOf df ddf x w)) ∧
      (∀ cause, (Newton.step df ddf x w).1 = .error cause → Newton.recordsOf df ddf x w = []) ∧
      ∀ status, (Newton.step df ddf x w).1 = .ok status →
        ∃ record, Newton.recordsOf df ddf x w = [record] ∧
          (record.level = Level.warning ↔ status = .numericalError ∨ status = .singularHessian) ∧
          (record.level = Level.debug ↔ status = .success)) ∧
    ∀ R : Journal Float → Journal Float → Prop, Journal.IsBackground R →
      (df x).KeepsTo R → (ddf x).KeepsTo R →
      R w.journal (Newton.examine df ddf x w).2.journal ∧
      ∀ (fuel : Nat) (limits : Limits Float) (callback : Option (Callback Float E)),
        (∀ report ∈ callback, ∀ n status, (report n x status).KeepsTo R) →
        (∀ result w', run fuel df ddf limits callback x w = (.ok (some result), w') →
          ∃ steps, Logs df ddf limits callback x w steps ∧ steps.length = result.final.steps ∧
            steps.map (·.level) = levelsOf result.final.steps result.final.status ∧
            w.journal.Hears R (steps ++
              [⟨Journal.iterationLogger, Level.info, .stopped result.final.steps result.reason⟩])
                w'.journal ∧
            ((∀ j j', R j j' → j.Settled j') → Journal.Reached w.journal → 1 ≤ w.journal.level →
              w.journal.Prints w'.journal (steps ++
                [⟨Journal.iterationLogger, Level.info,
                  .stopped result.final.steps result.reason⟩]))) ∧
        ∀ cause w', run fuel df ddf limits callback x w = (.error cause, w') →
          ∃ steps, Logs df ddf limits callback x w steps ∧ w.journal.Hears R steps w'.journal ∧
            ((∀ j j', R j j' → j.Settled j') → Journal.Reached w.journal → 1 ≤ w.journal.level →
              w.journal.Prints w'.journal steps) := by
  constructor
  · have hheard := Newton.hears_step Eq Journal.isBackground_eq df ddf x w
    refine ⟨hheard, fun hreached hlevel => ?_, fun cause => Newton.recordsOf_of_error,
      fun status hstep => ?_⟩
    · refine hheard.prints ?_ hreached hlevel fun record hrecord =>
        isReport_of_step (Newton.of_mem_recordsOf hrecord)
      rintro j _ rfl
      exact Journal.isBackground_settled.refl j
    · obtain ⟨record, hrecord, hlevel⟩ := Newton.exists_recordsOf_eq hstep
      exact ⟨record, hrecord, hlevel ▸ level_iff⟩
  · intro R hR hdf hddf
    refine ⟨Newton.keepsTo_examine hR hdf hddf w, fun fuel limits callback hcallback => ⟨?_, ?_⟩⟩
    · intro result w' hrun
      obtain ⟨steps, hlogs, hlength, hlevels, hheard⟩ :=
        exists_logs_of_run hR hdf hddf hcallback hrun
      refine ⟨steps, hlogs, hlength, hlevels, hheard, fun hsettled hreached hlevel => ?_⟩
      refine hheard.prints (fun h => hsettled _ _ h) hreached hlevel fun record hrecord => ?_
      rcases List.mem_append.mp hrecord with hstep | hend
      · exact isReport_of_step (hlogs.of_mem hstep)
      · obtain rfl := List.mem_singleton.mp hend
        exact ⟨.inr rfl, show (1 : Int) ≤ Level.info by decide⟩
    · intro cause w' hrun
      obtain ⟨steps, hlogs, hheard⟩ := exists_logs_of_run_error hR hdf hddf hcallback hrun
      refine ⟨steps, hlogs, hheard, fun hsettled hreached hlevel => ?_⟩
      exact hheard.prints (fun h => hsettled _ _ h) hreached hlevel fun record hrecord =>
        isReport_of_step (hlogs.of_mem hrecord)

/-! ### A step that fails -/

/-- A point with a gradient of norm one and a Hessian that is zero. -/
def flatWorld : World Float Unit :=
  ⟨⟨#[Newton.oneDouble 1.0, Newton.oneDouble 1.0, Newton.oneDouble 0.0]⟩, .initial, .initial, ()⟩

/-- The iteration from there, which goes no further than one step. -/
def flatRun : Except Fault (Option (Run Float)) × World Float Unit :=
  run 1 (Newton.always 1) (Newton.always 2) ⟨0.5, none, false⟩ none (.matrix 0) flatWorld

/-- Its step is reported by a warning, which is all that a journal writes whose level is that of the
start. -/
theorem records_agree_of_flatRun :
    ∃ result record, flatRun.1 = .ok (some result) ∧ result.final.steps = 1 ∧
      result.final.status = .singularHessian ∧ record.level = Level.warning ∧
      flatRun.2.journal.written =
        flatWorld.journal.written ++ [flatWorld.journal.entry record] := by
  have hend :
      (flatRun.1.toOption.join.map fun result => (result.final.steps, result.final.status)) =
      some (1, .singularHessian) := by
    decide +kernel
  obtain ⟨result, hrun, hfinal⟩ := Action.exists_eq_of_map_eq_some hend
  obtain ⟨hone, hsingular⟩ := Prod.mk.inj hfinal
  have hsettled := Journal.isBackground_settled (S := Float)
  obtain ⟨hruns, -⟩ :=
    ((records_agree (Newton.always 1) (Newton.always 2) (.matrix 0) flatWorld).2 _ hsettled
      ((Action.asks_pure _).keepsTo hsettled) ((Action.asks_pure _).keepsTo hsettled)).2
        1 ⟨0.5, none, false⟩ none nofun
  obtain ⟨steps, -, hlength, hlevels, -, hprints⟩ := hruns result flatRun.2 hrun
  rw [hone] at hlength
  obtain ⟨record, rfl⟩ := List.length_eq_one_iff.mp hlength
  rw [hone, hsingular] at hlevels
  have hwarning : record.level = Level.warning := (List.cons.inj hlevels).1
  have hlevel : flatWorld.journal.level = Level.warning :=
    (Handler.mk.inj Journal.handler_initial).1
  have hprinted := hprints (fun _ _ h => h) Journal.Reached.initial (by rw [hlevel]; decide)
  refine ⟨result, record, congrArg Prod.fst hrun, hone, hsingular, hwarning, ?_⟩
  -- the record of the end does not reach the level
  rw [hprinted.written]
  simp [hlevel, hwarning, Level.warning, Level.info]

end Iteration

end NewtonRaphson
