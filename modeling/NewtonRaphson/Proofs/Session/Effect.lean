import NewtonRaphson.Proofs.Iteration.Refusal
import NewtonRaphson.Proofs.OrderedScalar.Positive
import NewtonRaphson.Proofs.Session.Within
import NewtonRaphson.Session

/-! # What a command does

A command has few ways to end, and every property of a session is read off them:

* **`Command.overwritten?`**, **`Command.named?`**, **`Command.operands`** — the matrix that a
  command may overwrite, the name that it lets stand for its result, and the operands whose
  precision the result has; **`Command.delivers`** — whether the result is a new matrix.
* **`Session.Effect c w out`** — the command `c` in the world `w` may end in `out`: it is refused,
  tells something, sets the settings, delivers a new matrix, names an old one, or overwrites its
  target.
* **`Session.asks_run`** — a question leaves the world as it is.
* **`Session.run_effect`** — every command that is no block ends in one of these ways. -/

namespace NewtonRaphson

open World (Within isFrame_within)

/-! ## (1) What a command is about -/

namespace Command

/-- Whether a command is a block of commands. -/
def isBlock : Command → Bool
  | within _ _ => true
  | _ => false

/-- The reference whose matrix a command may overwrite. -/
def overwritten? (c : Command) (caller : Caller) : Option Ref :=
  match c with
  | setEntry target _ _ | assign target _ => caller.registers.lookup target
  | update operator target _ => if operator.overwrites then caller.registers.lookup target else none
  | step (.register point) _ _ | iterate (.register point) _ _ _ => caller.registers.lookup point
  | _ => none

/-- The name that a command lets stand for its result. -/
def named? : Command → Option String
  | zeros target _ _ _ | identity target _ _ | ofData target _ _ | vector target _ _
  | vectorOf target _ _ | copy target _ | negate target _ | transpose target _ | .alias target _
  | combine _ target _ _ | solve target _ _ _ | gradient target _ _ _
  | hessian target _ _ _ => target
  | update operator target _ => if operator.overwrites then none else some target
  | _ => none

/-- Whether a command is a question: it is answered or refused, and nothing else is done. -/
def isQuestion : Command → Bool
  | display _ | getEntry _ _ | walk _ | describe _ | compactText _ | fullText _ | hash _
  | norm _ | equal _ _
  | close _ _ _ _ | isSingular _ _ | conditioning _ | standardThreshold _ _
  | getPrecision | getFactor
  | withinTolerance _ _ | leave => true
  | _ => false

/-- Whether a command makes a new matrix. -/
def delivers : Command → Bool
  | zeros _ _ _ _ | identity _ _ _ | ofData _ _ _ | vector _ _ _ | vectorOf _ _ _ | copy _ _
  | negate _ _
  | transpose _ _ | combine _ _ _ _ | solve _ _ _ _ | gradient _ _ _ _ | hessian _ _ _ _ => true
  | update operator _ _ => !operator.overwrites
  | _ => false

/-- Whether a command may set the precision or the factor. -/
def setsSettings : Command → Bool
  | setPrecision _ | setFactor _ | restart _ => true
  | _ => false

/-- The operands that the result of a command is computed from. -/
def operands : Command → List Source
  | copy _ source | negate _ source | transpose _ source | .alias _ source => [.register source]
  | combine _ _ left right => [left, right]
  | update _ target right => [.register target, right]
  | solve _ matrix side _ => [.register matrix, .register side]
  | gradient _ point _ _ | hessian _ point _ _ => [.register point]
  | _ => []

/-- An operator in place that overwrites has its target for a target. -/
theorem update_of_overwrites {operator : Operator} (h : operator.overwrites = true)
    (target : String) (right : Source) (caller : Caller) :
    (update operator target right).delivers = false ∧ (update operator target right).named? = none ∧
      (update operator target right).overwritten? caller = caller.registers.lookup target := by
  simp [delivers, named?, overwritten?, h]

/-- One that does not lets its target stand for a new matrix. -/
theorem update_of_not_overwrites {operator : Operator} (h : operator.overwrites = false)
    (target : String) (right : Source) (caller : Caller) :
    (update operator target right).delivers = true ∧
      (update operator target right).named? = some target ∧
      (update operator target right).overwritten? caller = none := by
  simp [delivers, named?, overwritten?, h]

/-- A command that at most **tells** something: it has no new matrix, no name and no operands. -/
structure Tells (c : Command) : Prop where
  delivers_eq : c.delivers = false
  named_eq : c.named? = none
  operands_eq : c.operands = []

theorem tells_of_isQuestion {c : Command} (hc : c.isQuestion = true) : c.Tells := by
  cases c <;> first | exact ⟨rfl, rfl, rfl⟩ | cases hc

/-- The matrices among the operands of a command. -/
def Uses (c : Command) (w : World Float Caller) (a : DenseMatrix Float) : Prop :=
  ∃ name r, .register name ∈ c.operands ∧ w.caller.registers.lookup name = some r ∧
    a = w.store.get r

/-- A result has **the precision of the operands**. -/
def Matches (c : Command) (w : World Float Caller) (m : DenseMatrix Float) : Prop :=
  ∀ a, c.Uses w a → m.precision = a.precision

end Command

/-- The matrix that an outcome is the result of, if it is one. -/
def Outcome.matrix? : Outcome → Option (DenseMatrix Float)
  | matrix m => some m
  | differences m _ => some m
  | _ => none

/-- Whether an outcome tells of a refused search. -/
def Outcome.isSearchRefused : Outcome → Bool
  | searchRefused _ _ _ => true
  | _ => false

namespace Session

-- The equations of `run` are derived here once, not in every proof that needs one of them.
attribute [local simp] run runAll

/-- The world in which calls and sightings are forgotten. -/
def fresh (w : World Float Caller) : World Float Caller := { w with caller := w.caller.reset }

/-- The world in which a target, if there is one, stands for a reference. -/
def binding (target : Option String) (r : Ref) (w : World Float Caller) : World Float Caller :=
  match target with
  | some name => { w with caller := w.caller.bind name r }
  | none => w

/-- The world in which a matrix is added for a target. -/
def delivered (target : Option String) (m : DenseMatrix Float) (w : World Float Caller) :
    World Float Caller :=
  binding target w.store.size { w with store := w.store.add m }

/-! ## (2) The ways to end -/

/-- **How a command may end** in a world. -/
inductive Effect (c : Command) (w : World Float Caller) :
    Except Fault Outcome × World Float Caller → Prop
  /-- The command is refused; no matrix is touched. -/
  | refused {cause : Fault} {w' : World Float Caller} (h : Within ∅ w w') :
      Effect c w (.error cause, w')
  /-- The command tells something; no matrix is touched. -/
  | told {o : Outcome} {w' : World Float Caller} (htells : c.Tells) (h : Within ∅ w w') :
      Effect c w (.ok o, w')
  /-- The command sets the settings, also if it is refused; a factor above zero stays above zero. -/
  | settled {out : Except Fault Outcome} {s : Settings Float} (htells : c.Tells)
      (hfactor : Scalar.lt Scalar.zero w.settings.factor = true →
        Scalar.lt Scalar.zero s.factor = true)
      (hsets : c.setsSettings = true) : Effect c w (out, { w with settings := s })
  /-- The command delivers a new matrix. -/
  | delivered {o : Outcome} {m : DenseMatrix Float} {w₁ : World Float Caller}
      (hdelivers : c.delivers = true) (ho : o.matrix? = some m) (h : Within ∅ w w₁)
      (hm : w.store.Representable → m.Representable) (hmatches : c.Matches w m) :
      Effect c w (.ok o, delivered c.named? m w₁)
  /-- The command lets a name stand for a reference that has one already. -/
  | aliased {o : Outcome} {target : Option String} {source : String} {r : Ref}
      (hc : c = .alias target source) (hsource : w.caller.registers.lookup source = some r)
      (ho : o.matrix? = some (w.store.get r)) : Effect c w (.ok o, binding target r w)
  /-- The command overwrites its target. -/
  | overwritten {o : Outcome} {r : Ref} {w' : World Float Caller} (hdelivers : c.delivers = false)
      (hnamed : c.named? = none) (hr : c.overwritten? w.caller = some r) (h : Within {r} w w')
      (ho : o.isSearchRefused = false) (hmatches : ∀ m, o.matrix? = some m → c.Matches w m) :
      Effect c w (.ok o, w')
  /-- An iteration is refused on its way. -/
  | interrupted {point : String} {gradient hessian : Recipe} {plan : IterationPlan} {r : Ref}
      {limits : Limits Float} {n : Nat} {w₁ w' : World Float Caller} {cause : Fault}
      {x : Option (DenseMatrix Float)} {trace : SearchTrace}
      (hc : c = .iterate (.register point) gradient hessian plan)
      (hr : w.caller.registers.lookup point = some r) (hlimits : limitsOf plan = .ok limits)
      (hafter : Iteration.RefusedAfter (gradient.evaluator gradientPlace)
        (hessian.evaluator hessianPlace)
        limits (plan.callback.map CallbackPlan.callback) (.matrix r) (fresh w) n w₁ cause w')
      (h : Within {r} w w') : Effect c w (.ok (.searchRefused cause x trace), w')

variable {c : Command} {w : World Float Caller}

/-- A command that first asks ends as what it does then. -/
theorem Effect.bind_asks {α : Type} {a : SessionAction α} {f : α → SessionAction Outcome}
    (ha : a.Asks) (hf : ∀ v, a w = (.ok v, w) → Effect c w (f v w)) : Effect c w ((a >>= f) w) := by
  rcases h : a w with ⟨cause | v, w₁⟩
  · rw [Action.bind_of_error h, ha.eq_of_eq h]
    exact .refused ((isFrame_within ∅).refl w)
  · obtain rfl := ha.eq_of_eq h
    rw [Action.bind_of_ok h]
    exact hf v h

/-- A command that touches nothing tells something or is refused. -/
theorem effect_of_stays {x : SessionAction Outcome} (hx : x.Stays (Within ∅)) (htells : c.Tells) :
    Effect c w (x w) := by
  rcases h : x w with ⟨cause | o, w'⟩
  · exact .refused (hx.of_eq h)
  · exact .told htells (hx.of_eq h)

/-- So does a command that only asks. -/
theorem effect_of_asks {x : SessionAction Outcome} (hx : x.Asks) (htells : c.Tells) :
    Effect c w (x w) :=
  effect_of_stays (hx.stays (isFrame_within ∅)) htells

/-! ## (3) Asking for operands -/

theorem asks_refOf (name : String) : (refOf name).Asks :=
  Action.asks_look.bind fun w => Action.asks_ofExcept (w.caller.lookup name)

theorem asks_matrixOf (name : String) : (matrixOf name).Asks :=
  (asks_refOf name).bind fun r => Action.asks_read r

theorem asks_operandOf (source : Source) : (operandOf source).Asks := by
  cases source with
  | register name => exact (asks_matrixOf name).bind fun m => Action.asks_pure (Operand.matrix m)
  | plain d => exact Action.asks_pure (Operand.plain d)

theorem asks_factor : factor.Asks :=
  Action.asks_look.bind fun w => Action.asks_pure w.settings.factor

theorem asks_precision : precision.Asks :=
  Action.asks_look.bind fun w => Action.asks_pure w.settings.precision

/-- A name that is known stands for one reference. -/
theorem lookup_eq_ok_iff {caller : Caller} {name : String} {r : Ref} :
    caller.lookup name = .ok r ↔ caller.registers.lookup name = some r := by
  unfold Caller.lookup
  split
  · rename_i q hq
    rw [hq]
    exact ⟨fun h => congrArg some (Except.ok.inj h),
      fun h => congrArg Except.ok (Option.some.inj h)⟩
  · rename_i hnone
    rw [hnone]
    exact ⟨nofun, nofun⟩

theorem lookup_of_refOf {name : String} {r : Ref} {w' : World Float Caller}
    (h : refOf name w = (.ok r, w')) : w.caller.registers.lookup name = some r := by
  obtain ⟨v, w₁, hlook, hlookup⟩ := Action.bind_eq_ok_iff.mp h
  cases hlook
  exact lookup_eq_ok_iff.mp (congrArg Prod.fst hlookup)

theorem exists_lookup_of_matrixOf {name : String} {m : DenseMatrix Float} {w' : World Float Caller}
    (h : matrixOf name w = (.ok m, w')) :
    ∃ r, w.caller.registers.lookup name = some r ∧ m = w.store.get r := by
  obtain ⟨r, w₁, hr, hread⟩ := Action.bind_eq_ok_iff.mp h
  obtain rfl := (asks_refOf name).eq_of_eq hr
  cases hread
  exact ⟨r, lookup_of_refOf hr, rfl⟩

/-- The operand of a register is the matrix that the register holds. -/
theorem operand_of_register {name : String} {x : Operand} {r : Ref} {w' : World Float Caller}
    (h : operandOf (.register name) w = (.ok x, w'))
    (hr : w.caller.registers.lookup name = some r) : x = .matrix (w.store.get r) := by
  obtain ⟨m, w₁, hm, hx⟩ := Action.bind_eq_ok_iff.mp h
  obtain ⟨q, hq, rfl⟩ := exists_lookup_of_matrixOf hm
  rw [hr] at hq
  cases hq
  cases hx
  rfl

/-- The entries of a matrix operand belong to its precision if those of the matrices of the store
do. -/
theorem representable_of_operandOf {source : Source} {m : DenseMatrix Float}
    {w' : World Float Caller} (h : operandOf source w = (.ok (.matrix m), w'))
    (hw : w.store.Representable) : m.Representable := by
  cases source with
  | plain d => cases h
  | register name =>
    obtain ⟨n, w₁, hn, hm⟩ := Action.bind_eq_ok_iff.mp h
    obtain ⟨r, -, rfl⟩ := exists_lookup_of_matrixOf hn
    cases hm
    exact hw.get r

/-! ## (4) Delivering and overwriting -/

/-- Delivering a matrix adds it and lets the target stand for it. -/
theorem deliver_apply (target : Option String) (m : DenseMatrix Float) (w : World Float Caller) :
    deliver target m w = (.ok (.matrix m), delivered target m w) := by
  cases target <;> rfl

theorem effect_deliver {m : DenseMatrix Float} {target : Option String}
    (hdelivers : c.delivers = true) (hnamed : c.named? = target)
    (hm : w.store.Representable → m.Representable) (hmatches : c.Matches w m) :
    Effect c w (deliver target m w) := by
  rw [deliver_apply, ← hnamed]
  exact .delivered hdelivers rfl ((isFrame_within ∅).refl w) hm hmatches

/-- Every result matches the operands of a command that has none. -/
theorem matches_of_no_operands (hoperands : c.operands = []) (m : DenseMatrix Float) :
    c.Matches w m := by
  rintro _ ⟨name, r, hmem, -⟩
  rw [hoperands] at hmem
  cases hmem

/-- Overwriting a target by what may follow it. -/
theorem effect_overwrite {target : String}
    {f : DenseMatrix Float → Except Fault (DenseMatrix Float)} (htells : c.Tells)
    (htarget : c.overwritten? w.caller = w.caller.registers.lookup target)
    (hf : ∀ m n, f m = .ok n → m.Follows n ∧
      (w.store.Representable → m.Representable → n.Representable)) :
    Effect c w (overwrite target f w) := by
  refine .bind_asks (asks_refOf target) fun r hr => ?_
  refine .bind_asks (Action.asks_read r) fun m hm => ?_
  refine .bind_asks (Action.asks_ofExcept (f m)) fun n hn => ?_
  cases hm
  obtain ⟨hfollows, hn⟩ := hf _ n (congrArg Prod.fst hn)
  have hw : Within {r} w { w with store := w.store.put r n } :=
    World.within_put rfl hfollows fun h => hn h (h.get r)
  exact .overwritten htells.delivers_eq htells.named_eq (htarget.trans (lookup_of_refOf hr)) hw
    rfl fun m _ => matches_of_no_operands htells.operands_eq m

/-- An operator in place overwrites its target, or lets it stand for a new matrix. -/
theorem effect_update (fuel : Nat) (operator : Operator) (target : String) (right : Source)
    (w : World Float Caller) :
    Effect (.update operator target right) w (run fuel (.update operator target right) w) := by
  rw [run]
  refine .bind_asks (asks_refOf target) fun r hr => ?_
  refine .bind_asks (asks_operandOf right) fun b hb => ?_
  refine .bind_asks (Action.asks_read r) fun a ha => ?_
  refine .bind_asks (Action.asks_ofExcept _) fun m hm => ?_
  cases ha
  have hm : operator.apply (.matrix (w.store.get r)) b = .ok m := congrArg Prod.fst hm
  have hlookup := lookup_of_refOf hr
  have hmatches : (Command.update operator target right).Matches w m := by
    rintro _ ⟨name, q, hmem, hq, rfl⟩
    rcases List.mem_pair.mp hmem with heq | heq
    · cases heq
      rw [hlookup] at hq
      cases hq
      exact (Operator.faithful_of_apply hm (.inl rfl)).precision_eq
    · subst heq
      exact (Operator.faithful_of_apply hm (.inr (operand_of_register hb hq))).precision_eq
  have hrepresentable := Operator.representable_of_apply hm
  cases hoverwrites : operator.overwrites with
  | true =>
    rw [if_pos rfl]
    obtain ⟨hdelivers, hnamed, htarget⟩ :=
      Command.update_of_overwrites hoverwrites target right w.caller
    have hw : Within {r} w { w with store := w.store.put r m } :=
      World.within_put rfl (Operator.follows_of_apply hoverwrites hm) fun _ => hrepresentable
    exact .overwritten hdelivers hnamed (htarget.trans hlookup) hw rfl fun n hn =>
      Option.some.inj hn ▸ hmatches
  | false =>
    rw [if_neg Bool.false_ne_true]
    obtain ⟨hdelivers, hnamed, -⟩ :=
      Command.update_of_not_overwrites hoverwrites target right w.caller
    exact effect_deliver hdelivers hnamed (fun _ => hrepresentable) hmatches

/-- The result of an operator is a new matrix. -/
theorem effect_combine (fuel : Nat) (operator : Operator) (target : Option String)
    (left right : Source) (w : World Float Caller) :
    Effect (.combine operator target left right) w
      (run fuel (.combine operator target left right) w) := by
  rw [run]
  refine .bind_asks (asks_operandOf left) fun a ha => ?_
  refine .bind_asks (asks_operandOf right) fun b hb => ?_
  refine .bind_asks (Action.asks_ofExcept _) fun m hm => ?_
  have hm : operator.apply a b = .ok m := congrArg Prod.fst hm
  refine effect_deliver rfl rfl (fun _ => Operator.representable_of_apply hm) ?_
  rintro _ ⟨name, r, hmem, hr, rfl⟩
  rcases List.mem_pair.mp hmem with heq | heq
  · subst heq
    exact (Operator.faithful_of_apply hm (.inl (operand_of_register ha hr))).precision_eq
  · subst heq
    exact (Operator.faithful_of_apply hm (.inr (operand_of_register hb hr))).precision_eq

/-- A result matches its only operand if it has the precision of that. -/
theorem matches_of_register {source : String} {r : Ref} {m : DenseMatrix Float}
    (hoperands : c.operands = [.register source]) (hr : w.caller.registers.lookup source = some r)
    (hm : m.precision = (w.store.get r).precision) : c.Matches w m := by
  rintro _ ⟨name, q, hmem, hq, rfl⟩
  rw [hoperands] at hmem
  cases List.mem_singleton.mp hmem
  rw [hr] at hq
  cases hq
  exact hm

/-- A matrix made of the one of a name, in the precision of that. -/
theorem effect_of_source {target : Option String} {source : String}
    {f : DenseMatrix Float → DenseMatrix Float} (hdelivers : c.delivers = true)
    (hnamed : c.named? = target) (hoperands : c.operands = [.register source])
    (hprecision : ∀ m, (f m).precision = m.precision)
    (hf : ∀ m, m.Representable → (f m).Representable) :
    Effect c w ((matrixOf source >>= fun m => deliver target (f m)) w) := by
  refine .bind_asks (asks_matrixOf source) fun m hm => ?_
  obtain ⟨r, hr, rfl⟩ := exists_lookup_of_matrixOf hm
  exact effect_deliver hdelivers hnamed (fun h => hf _ (h.get r))
    (matches_of_register hoperands hr (hprecision _))

/-- A solution is a new matrix. -/
theorem effect_solve (fuel : Nat) (target : Option String) (matrix side : String)
    (threshold : Option Datum) (w : World Float Caller) :
    Effect (.solve target matrix side threshold) w
      (run fuel (.solve target matrix side threshold) w) := by
  rw [run]
  refine .bind_asks (asks_matrixOf matrix) fun a ha => ?_
  refine .bind_asks (asks_matrixOf side) fun b hb => ?_
  refine .bind_asks asks_factor fun factor _ => ?_
  refine .bind_asks (Action.asks_ofExcept _) fun y hy => ?_
  obtain ⟨hfaithful, hequal⟩ := faithful_of_solve (congrArg Prod.fst hy)
  obtain ⟨r, hr, rfl⟩ := exists_lookup_of_matrixOf ha
  obtain ⟨q, hq, rfl⟩ := exists_lookup_of_matrixOf hb
  refine effect_deliver rfl rfl (fun _ => hfaithful.representable) ?_
  rintro _ ⟨name, s, hmem, hs, rfl⟩
  rcases List.mem_pair.mp hmem with heq | heq
  · cases heq
    rw [hr] at hs
    cases hs
    exact hfaithful.precision_eq
  · cases heq
    rw [hq] at hs
    cases hs
    exact hfaithful.precision_eq.trans hequal

/-! ## (5) Searches and differences -/

/-- Asking for the matrix of a value and for what was seen always succeeds. -/
theorem exists_matrixAt (x : Value) (w : World Float Caller) : ∃ m, matrixAt x w = (.ok m, w) := by
  cases x with
  | matrix r => exact ⟨some (w.store.get r), rfl⟩
  | plain d => exact ⟨none, rfl⟩

theorem exists_traceOf (hasCallback : Bool) (w : World Float Caller) :
    ∃ trace, traceOf hasCallback w = (.ok trace, w) := ⟨_, rfl⟩

/-- The reference of a source that is a register. -/
theorem valueOf_eq_ok {point : Source} {x : Value} {w' : World Float Caller}
    (h : valueOf point w = (.ok x, w')) :
    w' = w ∧ ((∃ d, x = .plain d) ∨
      ∃ name r, point = .register name ∧ x = .matrix r ∧
      w.caller.registers.lookup name = some r) := by
  cases point with
  | plain d =>
    cases h
    exact ⟨rfl, .inl ⟨d, rfl⟩⟩
  | register name =>
    obtain ⟨r, w₁, hr, hx⟩ := Action.bind_eq_ok_iff.mp h
    cases hx
    exact ⟨(asks_refOf name).eq_of_eq hr, .inr ⟨name, r, rfl, rfl, lookup_of_refOf hr⟩⟩

/-- **How a search goes**: its point is refused, or it is carried out, and its result is told. -/
theorem search_cases {α : Type} (point : Source) (hasCallback : Bool) (x : Value → SessionAction α)
    (tell : α → Value → Option (DenseMatrix Float) → SearchTrace → Outcome)
    (w : World Float Caller) :
    (∃ cause, search point hasCallback x tell w = (.error cause, fresh w)) ∨
      ∃ start m trace, valueOf point (fresh w) = (.ok start, fresh w) ∧
        search point hasCallback x tell w =
          (.ok (match (x start (fresh w)).1 with
            | .ok a => tell a start m trace
            | .error cause => .searchRefused cause m trace), (x start (fresh w)).2) := by
  unfold search
  rw [Action.bind_of_ok (show Action.onCaller (·.reset) w = (.ok (), fresh w) from rfl)]
  rcases hstart : valueOf point (fresh w) with ⟨cause | start, w₁⟩
  · have hw₁ : w₁ = fresh w := by
      cases point with
      | plain d => cases hstart
      | register name =>
        exact ((asks_refOf name).bind fun r => Action.asks_pure (Value.matrix r)).eq_of_eq hstart
    rw [Action.bind_of_error hstart, hw₁]
    exact .inl ⟨cause, rfl⟩
  · obtain ⟨rfl, -⟩ := valueOf_eq_ok hstart
    rcases hx : x start (fresh w) with ⟨out, w₂⟩
    have hattempt : attempt (x start) (fresh w) = (.ok out, w₂) := by
      unfold attempt
      rw [hx]
    obtain ⟨m, hm⟩ := exists_matrixAt start w₂
    obtain ⟨trace, htrace⟩ := exists_traceOf hasCallback w₂
    refine .inr ⟨start, m, trace, rfl, ?_⟩
    rw [Action.bind_of_ok hstart, Action.bind_of_ok hattempt, Action.bind_of_ok hm,
      Action.bind_of_ok htrace, hx]
    cases out <;> rfl

/-- The evaluators of two recipes are those of the recipes at their places. -/
theorem evaluators_eq_ok {gradient hessian : Recipe} {df ddf : Evaluator Float Caller}
    (h : evaluators gradient hessian = .ok (df, ddf)) :
    df = gradient.evaluator gradientPlace ∧ ddf = hessian.evaluator hessianPlace := by
  unfold evaluators at h
  rcases hg : gradient.check with cause | _
  · rw [hg] at h
    cases h
  · rcases hh : hessian.check with cause | _
    · rw [hg, hh] at h
      cases h
    · rw [hg, hh] at h
      cases h
      exact ⟨rfl, rfl⟩

/-- Forgetting calls and sightings touches nothing. -/
theorem within_fresh (touched : Set Ref) (w : World Float Caller) : Within touched w (fresh w) :=
  .of_eq rfl rfl rfl

/-- Only the reference of a point may be touched. -/
theorem letsMove_point (r : Ref) : Newton.LetsMove (Within {r}) (.matrix r) :=
  World.letsMove_within fun _ hq => Value.matrix.inj hq ▸ rfl

/-- A computation that touches nothing and returns a value may be left out. -/
theorem ofExcept_bind {α β : Type} (a : α) (f : α → SessionAction β) (w : World Float Caller) :
    ((liftM (Except.ok a : Except Fault α) : SessionAction α) >>= f) w = f a w := rfl

/-- **A step** overwrites its point or touches nothing. -/
theorem effect_step (fuel : Nat) (point : Source) (gradient hessian : Recipe)
    (w : World Float Caller) :
    Effect (.step point gradient hessian) w (run fuel (.step point gradient hessian) w) := by
  rw [run]
  unfold step
  rcases search_cases point false _ _ w with ⟨cause, h⟩ | ⟨start, m, trace, hstart, h⟩ <;> rw [h]
  · exact .refused (within_fresh ∅ w)
  have hw := within_fresh ∅ w
  rcases hevaluators : evaluators gradient hessian with cause | ⟨df, ddf⟩
  · exact .told ⟨rfl, rfl, rfl⟩ hw
  obtain ⟨rfl, rfl⟩ := evaluators_eq_ok hevaluators
  have hdf {touched : Set Ref} (x : Value) :
      (gradient.evaluator gradientPlace x).Stays (Within touched) :=
    gradient.stays_evaluator gradientPlace x
  have hddf {touched : Set Ref} (x : Value) :
      (hessian.evaluator hessianPlace x).Stays (Within touched) :=
    hessian.stays_evaluator hessianPlace x
  rcases Newton.step_moves_or_stays (isFrame_within ∅) (hdf start) (hddf start) (fresh w) with
    hstays | ⟨r, _, _, _, _, w₂, rfl, -, -, hmoved⟩
  · exact .told ⟨rfl, rfl, rfl⟩ (hw.trans hstays)
  · -- the point of a step that moved it is that of a register
    obtain ⟨-, ⟨d, hd⟩ | ⟨name, q, rfl, hq, hlookup⟩⟩ := valueOf_eq_ok hstart
    · cases hd
    cases hq
    have htouched :=
      (Newton.stays_step (isFrame_within {r}) (hdf _) (hddf _) (letsMove_point r)).of_eq hmoved
    rw [ofExcept_bind]
    dsimp only
    rw [hmoved]
    refine .overwritten rfl rfl hlookup ((within_fresh {r} w).trans htouched) ?_ fun n _ =>
      matches_of_no_operands rfl n
    cases m <;> rfl

/-- **An iteration** overwrites its point, is refused on its way, or touches nothing. -/
theorem effect_iterate (fuel : Nat) (point : Source) (gradient hessian : Recipe)
    (plan : IterationPlan) (w : World Float Caller) :
    Effect (.iterate point gradient hessian plan) w
      (run fuel (.iterate point gradient hessian plan) w) := by
  rw [run]
  unfold iterate
  rcases search_cases point plan.callback.isSome _ _ w with
    ⟨cause, h⟩ | ⟨start, m, trace, hstart, h⟩ <;> rw [h]
  · exact .refused (within_fresh ∅ w)
  rcases hevaluators : evaluators gradient hessian with cause | ⟨df, ddf⟩
  · exact .told ⟨rfl, rfl, rfl⟩ (within_fresh ∅ w)
  obtain ⟨rfl, rfl⟩ := evaluators_eq_ok hevaluators
  rcases hlimits : limitsOf plan with cause | limits
  · exact .told ⟨rfl, rfl, rfl⟩ (within_fresh ∅ w)
  set callback := plan.callback.map CallbackPlan.callback with hcallback
  rw [ofExcept_bind]
  dsimp only
  rw [ofExcept_bind]
  -- whatever may be touched contains the point, if this is a matrix
  have hstays {touched : Set Ref} (hx : ∀ r, start = .matrix r → r ∈ touched) :
      (Iteration.run fuel (gradient.evaluator gradientPlace) (hessian.evaluator hessianPlace)
        limits callback start).Stays (Within touched) := by
    refine Iteration.stays_run (isFrame_within touched) (gradient.stays_evaluator _ start)
      (hessian.stays_evaluator _ start) (World.letsMove_within hx)
      (fun report hreport n status => ?_) fuel
    obtain ⟨plan', -, rfl⟩ := Option.map_eq_some_iff.mp hreport
    exact plan'.stays_callback (.inr hx) n status
  obtain ⟨-, ⟨d, rfl⟩ | ⟨name, r, rfl, rfl, hlookup⟩⟩ := valueOf_eq_ok hstart
  · exact .told ⟨rfl, rfl, rfl⟩ ((within_fresh ∅ w).trans (hstays nofun (fresh w)))
  · have htouched :=
      (within_fresh {r} w).trans (hstays (fun _ hq => Value.matrix.inj hq ▸ rfl) (fresh w))
    rcases hrun : Iteration.run fuel (gradient.evaluator gradientPlace)
        (hessian.evaluator hessianPlace) limits
        callback (.matrix r) (fresh w) with ⟨cause | result, w'⟩
    · rw [hrun] at htouched
      obtain ⟨n, w₁, hafter⟩ := Iteration.refusedAfter_of_run hrun
      exact .interrupted rfl hlookup hlimits hafter htouched
    · rw [hrun] at htouched
      refine .overwritten rfl rfl hlookup htouched ?_ fun n _ => matches_of_no_operands rfl n
      cases result <;> rfl

/-- Differences deliver a new matrix. -/
theorem effect_differences {target : Option String} {point : String} {objective : Expression}
    {f : Objective Float Caller → Value → SessionAction (DenseMatrix Float)}
    (hdelivers : c.delivers = true) (hnamed : c.named? = target)
    (hoperands : c.operands = [.register point])
    (hstays : ∀ r, (f (Recipe.objectiveOf objectivePlace objective) (.matrix r)).Stays (Within ∅))
    (hfaithful : ∀ r w m w', f (Recipe.objectiveOf objectivePlace objective) (.matrix r) w =
      (.ok m, w') → m.Faithful (w.store.get r).precision) :
    Effect c w (differences target point objective f w) := by
  unfold differences
  rw [Action.bind_of_ok (show Action.onCaller (·.reset) w = (.ok (), fresh w) from rfl)]
  rcases hr : refOf point (fresh w) with ⟨cause | r, w₁⟩
  · rw [Action.bind_of_error hr, (asks_refOf point).eq_of_eq hr]
    exact .refused (within_fresh ∅ w)
  obtain rfl := (asks_refOf point).eq_of_eq hr
  rw [Action.bind_of_ok hr]
  rcases hm : f (Recipe.objectiveOf objectivePlace objective) (.matrix r) (fresh w) with
    ⟨cause | m, w₂⟩
  · rw [Action.bind_of_error hm]
    exact .refused ((within_fresh ∅ w).trans ((hstays r).of_eq hm))
  rw [Action.bind_of_ok hm]
  have hlookup : w.caller.registers.lookup point = some r :=
    lookup_of_refOf (w := fresh w) hr
  have hfaithful := hfaithful r _ _ _ hm
  have hend : (do
      bindTarget target (← Action.add m)
      return .differences m ((← Action.look).caller.callsOf objectivePlace) :
      SessionAction Outcome) w₂ =
        (.ok (.differences m ((delivered target m w₂).caller.callsOf objectivePlace)),
          delivered target m w₂) := by
    cases target <;> rfl
  have hw₂ := (within_fresh ∅ w).trans ((hstays r).of_eq hm)
  rw [hend, ← hnamed]
  exact .delivered hdelivers rfl hw₂ (fun _ => hfaithful.representable)
    (matches_of_register hoperands hlookup hfaithful.precision_eq)

/-! ## (6) Settings -/

/-- Setting the precision. -/
theorem effect_setPrecision (fuel : Nat) (request : PrecisionRequest) (w : World Float Caller) :
    Effect (.setPrecision request) w (run fuel (.setPrecision request) w) := by
  rw [run]
  refine .bind_asks (Action.asks_ofExcept _) fun p hp => ?_
  exact .settled (s := { w.settings with precision := p }) ⟨rfl, rfl, rfl⟩ id rfl

/-- Setting the factor: an accepted one is above zero. -/
theorem effect_setFactor (fuel : Nat) (value : Datum) (w : World Float Caller) :
    Effect (.setFactor value) w (run fuel (.setFactor value) w) := by
  rw [run]
  refine .bind_asks (Action.asks_ofExcept _) fun x hx => ?_
  have hx : Scalar.lt Scalar.zero x = true :=
    Datum.scalar_lt_of_toSingularityFactor (congrArg Prod.fst hx)
  exact .settled (s := { w.settings with factor := x }) ⟨rfl, rfl, rfl⟩ (fun _ => hx) rfl

/-- A fresh start sets the factor to one, and then the precision if that is not refused. -/
theorem effect_restart (fuel : Nat) (request : PrecisionRequest) (w : World Float Caller) :
    Effect (.restart request) w (run fuel (.restart request) w) := by
  rw [run]
  have hone : Scalar.lt (Scalar.zero : Float) Scalar.one = true := by decide +kernel
  rcases hp : request.resolve with cause | p
  · exact .settled (s := ⟨w.settings.precision, Scalar.one⟩) ⟨rfl, rfl, rfl⟩ (fun _ => hone) rfl
  · exact .settled (s := ⟨p, Scalar.one⟩) ⟨rfl, rfl, rfl⟩ (fun _ => hone) rfl

/-! ## (7) Questions -/

/-- **A question leaves the world as it is**, whether it is answered or refused. -/
theorem asks_run (fuel : Nat) (hc : c.isQuestion = true) : (run fuel c).Asks := by
  cases c with
  | display source | walk source | describe source | compactText source | fullText source
  | norm source =>
    rw [run]
    exact (asks_matrixOf source).bind fun m => Action.asks_pure _
  | getEntry source key =>
    rw [run]
    refine (asks_matrixOf source).bind fun m => ?_
    exact (Action.asks_ofExcept _).bind fun x => Action.asks_pure _
  | hash source =>
    rw [run]
    exact (asks_refOf source).bind fun r => Action.asks_fail _
  | equal left right =>
    rw [run]
    refine (asks_operandOf left).bind fun a => ?_
    exact (asks_operandOf right).bind fun b => Action.asks_pure _
  | close left right atol rtol =>
    rw [run]
    refine (asks_matrixOf left).bind fun a => (asks_operandOf right).bind fun b => ?_
    exact (Action.asks_ofExcept _).bind fun truth => Action.asks_pure _
  | isSingular source threshold =>
    rw [run]
    refine (asks_matrixOf source).bind fun m => asks_factor.bind fun x => ?_
    exact (Action.asks_ofExcept _).bind fun truth => Action.asks_pure _
  | conditioning source =>
    rw [run]
    refine (asks_matrixOf source).bind fun m => ?_
    refine (Action.asks_ofExcept _).bind fun condition => ?_
    cases condition with
    | unbounded => exact Action.asks_pure _
    | ratio x => exact Action.asks_pure _
  | standardThreshold size choice =>
    rw [run]
    refine (Action.asks_ofExcept _).bind fun n => ?_
    exact (Action.asks_resolve choice).bind fun p => asks_factor.bind fun x => Action.asks_pure _
  | getPrecision =>
    rw [run]
    exact asks_precision.bind fun p => Action.asks_pure _
  | getFactor =>
    rw [run]
    exact asks_factor.bind fun x => Action.asks_pure _
  | withinTolerance norm tolerance =>
    rw [run]
    exact (Action.asks_ofExcept _).bind fun truth => Action.asks_pure _
  | leave =>
    rw [run]
    exact Action.asks_fail _
  | _ => cases hc

/-! ## (8) All commands -/

/-- **Every command that is no block** ends in one of these ways. -/
theorem run_effect (fuel : Nat) (hc : c.isBlock = false) (w : World Float Caller) :
    Effect c w (run fuel c w) := by
  have hempty := isFrame_within ∅
  by_cases hasks : c.isQuestion = true
  · exact effect_of_asks (asks_run fuel hasks) (Command.tells_of_isQuestion hasks)
  cases c with
  -- new matrices
  | zeros target rows cols choice =>
    rw [run]
    refine .bind_asks (Action.asks_ofExcept _) fun rows _ => ?_
    refine .bind_asks (Action.asks_ofExcept _) fun cols _ => ?_
    refine .bind_asks (Action.asks_resolve choice) fun p _ => ?_
    exact effect_deliver rfl rfl (fun _ => (DenseMatrix.faithful_zeros p _ _).representable)
      (matches_of_no_operands rfl _)
  | identity target size choice =>
    rw [run]
    refine .bind_asks (Action.asks_ofExcept _) fun n _ => ?_
    refine .bind_asks (Action.asks_resolve choice) fun p _ => ?_
    exact effect_deliver rfl rfl (fun _ => (DenseMatrix.faithful_identity p _).representable)
      (matches_of_no_operands rfl _)
  | ofData target data choice =>
    rw [run]
    refine .bind_asks (Action.asks_resolve choice) fun p _ => ?_
    refine .bind_asks (Action.asks_ofExcept _) fun m hm => ?_
    exact effect_deliver rfl rfl
      (fun _ => (DenseMatrix.faithful_of_ofDatum (congrArg Prod.fst hm)).representable)
      (matches_of_no_operands rfl _)
  | vector target data choice =>
    rw [run]
    refine .bind_asks (Action.asks_ofExcept _) fun entries _ => ?_
    refine .bind_asks (Action.asks_resolve choice) fun p _ => ?_
    refine .bind_asks (Action.asks_ofExcept _) fun m hm => ?_
    exact effect_deliver rfl rfl
      (fun _ => (DenseMatrix.faithful_of_column (congrArg Prod.fst hm)).representable)
      (matches_of_no_operands rfl _)
  | vectorOf target source choice =>
    rw [run]
    refine .bind_asks (asks_matrixOf source) fun m _ => ?_
    refine .bind_asks (Action.asks_resolve choice) fun p _ => ?_
    refine .bind_asks (Action.asks_ofExcept _) fun m hm => ?_
    exact effect_deliver rfl rfl
      (fun _ => (DenseMatrix.faithful_of_column (congrArg Prod.fst hm)).representable)
      (matches_of_no_operands rfl _)
  | copy target source =>
    rw [run]
    exact effect_of_source rfl rfl rfl (fun _ => rfl) fun _ hm => hm
  | negate target source =>
    rw [run]
    exact effect_of_source rfl rfl rfl (fun _ => rfl) fun m _ => m.faithful_neg.representable
  | transpose target source =>
    rw [run]
    exact effect_of_source rfl rfl rfl (fun _ => rfl) fun _ hm =>
      hm.faithful_transpose.representable
  | combine operator target left right => exact effect_combine fuel operator target left right w
  | solve target matrix side threshold => exact effect_solve fuel target matrix side threshold w
  | gradient target point objective width =>
    rw [run]
    exact effect_differences rfl rfl rfl
      (fun r => Differences.stays_gradient (Recipe.stays_objectiveOf _ objective) _ _)
      fun r w m w' h => by
        obtain ⟨q, hq, hm⟩ := Differences.faithful_of_gradient h
        cases hq
        exact hm
  | hessian target point objective width =>
    rw [run]
    exact effect_differences rfl rfl rfl
      (fun r => Differences.stays_hessian (Recipe.stays_objectiveOf _ objective) _ _)
      fun r w m w' h => by
        obtain ⟨q, hq, hm⟩ := Differences.faithful_of_hessian h
        cases hq
        exact hm
  -- names
  | «alias» target source =>
    rw [run]
    refine .bind_asks (asks_refOf source) fun r hr => ?_
    have hend : (do
        bindTarget target r
        return .matrix (← Action.read r) : SessionAction Outcome) w =
          (.ok (.matrix (w.store.get r)), binding target r w) := by
      cases target <;> rfl
    rw [hend]
    exact .aliased rfl (lookup_of_refOf hr) rfl
  -- targets that are overwritten
  | update operator target right => exact effect_update fuel operator target right w
  | setEntry target key value =>
    rw [run]
    refine effect_overwrite ⟨rfl, rfl, rfl⟩ rfl fun m n hn => ?_
    obtain ⟨hfollows, hrepresentable⟩ := DenseMatrix.follows_of_setEntry hn
    exact ⟨hfollows, fun _ => hrepresentable⟩
  | assign target right =>
    rw [run]
    refine .bind_asks (asks_operandOf right) fun b hb => ?_
    refine effect_overwrite ⟨rfl, rfl, rfl⟩ rfl fun m n hn => ?_
    cases b with
    | plain d => cases hn
    | matrix b =>
      obtain ⟨hfollows, hrepresentable⟩ := DenseMatrix.follows_of_overwrite hn
      exact ⟨hfollows, fun hw _ => hrepresentable (representable_of_operandOf hb hw)⟩
  | step point gradient hessian => exact effect_step fuel point gradient hessian w
  | iterate point gradient hessian plan => exact effect_iterate fuel point gradient hessian plan w
  -- settings
  | setPrecision request => exact effect_setPrecision fuel request w
  | setFactor value => exact effect_setFactor fuel value w
  | restart request => exact effect_restart fuel request w
  -- the journal and the demonstration
  | demo =>
    rw [run]
    exact effect_of_stays (Demo.stays_transcript.bind hempty fun s => Action.stays_pure hempty _)
      ⟨rfl, rfl, rfl⟩
  | requestLogger name =>
    rw [run]
    refine effect_of_stays ((Action.stays_onJournal hempty _).bind hempty fun name => ?_)
      ⟨rfl, rfl, rfl⟩
    refine (Action.stays_look hempty).bind hempty fun w => ?_
    dsimp only
    split <;> exact Action.stays_pure hempty _
  | setLevel level =>
    rw [run]
    refine effect_of_stays ((Action.stays_onJournal hempty _).bind hempty fun _ => ?_)
      ⟨rfl, rfl, rfl⟩
    exact (Action.stays_look hempty).bind hempty fun w => Action.stays_pure hempty _
  | configure level template stream =>
    rw [run]
    refine effect_of_stays ((Action.stays_onJournal hempty _).bind hempty fun _ => ?_)
      ⟨rfl, rfl, rfl⟩
    exact (Action.stays_look hempty).bind hempty fun w => Action.stays_pure hempty _
  | emit name level text =>
    rw [run]
    refine effect_of_stays ((Action.stays_onJournal hempty _).bind hempty fun name => ?_)
      ⟨rfl, rfl, rfl⟩
    exact (Action.stays_record hempty _ _ _).bind hempty fun _ => Action.stays_pure hempty _
  | within request body => cases hc
  | _ => exact absurd rfl hasks

end Session

end NewtonRaphson
