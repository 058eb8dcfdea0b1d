import NewtonRaphson.Proofs.Iteration

/-! # The calls that an iteration makes

How often and with what an iteration calls the functions of its caller is not part of its result. So
the functions are **watched**: a log beside the caller's own state keeps what they were called with
and what they answered.

* **`Action.noting`** — an action that also writes one call to the log; `Action.noting_of_eq` says
  that it does nothing else.
* **`Evaluator.watched`** and **`Callback.watched`** — the functions of the caller, watched.
* **`Iteration.step_watched`** and **`Iteration.advance_watched`** — what a step and an advance log.
* **`Iteration.Reached.exists_watched`** — an iteration under watch goes the way that it goes
  without, and the last call it makes is the gradient whose norm it keeps. -/

namespace NewtonRaphson

variable {S E α : Type}

/-- A **call** of a function of the caller, with what the point holds at that time. -/
inductive Call (S : Type) where
  /-- An evaluator is asked at a value, and answers with a matrix if it answers with one. -/
  | asked (which : Derivative) (x : Value) (held answer : Option (DenseMatrix S))
  /-- The callback is told of a step. -/
  | told (steps : Nat) (x : Value) (held : Option (DenseMatrix S)) (status : Status)

namespace Call

/-- Whether a call asks for a derivative. -/
def asks (which : Derivative) : Call S → Bool
  | asked which' _ _ _ => which' = which
  | told _ _ _ _ => false

/-- What a call tells the callback, if it is one of the callback. -/
def told? : Call S → Option (Nat × Value × Option (DenseMatrix S) × Status)
  | asked _ _ _ _ => none
  | told steps x held status => some (steps, x, held, status)

end Call

/-! ## (1) Worlds with a log -/

/-- The world with a log of calls beside the caller's state. -/
def World.watched (w : World S E) (calls : List (Call S)) : World S (E × List (Call S)) :=
  ⟨w.store, w.settings, w.journal, w.caller, calls⟩

/-- The world without its log. -/
def World.unwatched (w : World S (E × List (Call S))) : World S E :=
  ⟨w.store, w.settings, w.journal, w.caller.1⟩

/-- An action that also notes one call, made of the world it came to and of what it returned
there. -/
def Action.noting (a : Action S E α) (note : World S E → Except Fault α × World S E → Call S) :
    Action S (E × List (Call S)) α := fun w =>
  ((a w.unwatched).1,
    (a w.unwatched).2.watched (w.caller.2 ++ [note w.unwatched (a w.unwatched)]))

/-- Noting a call changes nothing but the log. -/
theorem Action.noting_of_eq {a : Action S E α}
    {note : World S E → Except Fault α × World S E → Call S} {w w' : World S E}
    {out : Except Fault α} (h : a w = (out, w')) (calls : List (Call S)) :
    a.noting note (w.watched calls) = (out, w'.watched (calls ++ [note w (out, w')])) := by
  show ((a w).1, (a w).2.watched (calls ++ [note w (a w)])) = _
  rw [h]

/-! ## (2) Watched functions of the caller -/

section Watched

variable [Scalar S]

/-- The matrix that an evaluator answered with, if it did. -/
def answered : Except Fault Value × World S E → Option (DenseMatrix S)
  | (.ok (.matrix r), w) => some (w.store.get r)
  | _ => none

/-- An evaluator whose calls are logged. -/
def Evaluator.watched (which : Derivative) (f : Evaluator S E) :
    Evaluator S (E × List (Call S)) :=
  fun x => (f x).noting fun w out => .asked which x (w.held x) (answered out)

/-- A callback whose calls are logged. -/
def Callback.watched (report : Callback S E) : Callback S (E × List (Call S)) :=
  fun steps x status => (report steps x status).noting fun w _ => .told steps x (w.held x) status

/-- A watched evaluator answers as it would, and the log tells where it was asked and its answer. -/
theorem Evaluator.watched_of_eq (which : Derivative) {f : Evaluator S E} {x : Value}
    {w w' : World S E} {r : Ref} (h : f x w = (.ok (.matrix r), w')) (calls : List (Call S)) :
    f.watched which x (w.watched calls) =
      (.ok (.matrix r),
        w'.watched (calls ++ [.asked which x (w.held x) (some (w'.store.get r))])) :=
  Action.noting_of_eq h calls

end Watched

/-- A watched callback does what it would, and the log tells what it was told. -/
theorem Callback.watched_of_eq {report : Callback S E} {steps : Nat} {x : Value} {status : Status}
    {w w' : World S E} (h : report steps x status w = (.ok (), w')) (calls : List (Call S)) :
    report.watched steps x status (w.watched calls) =
      (.ok (), w'.watched (calls ++ [.told steps x (w.held x) status])) :=
  Action.noting_of_eq h calls

namespace Iteration

/-- The calls that tell a callback, if there is one, of a step. -/
def tellings (callback : Option (Callback S E)) (steps : Nat) (x : Value)
    (held : Option (DenseMatrix S)) (status : Status) : List (Call S) :=
  match callback with
  | some _ => [.told steps x held status]
  | none => []

/-- Telling a watched callback of a step logs just that. -/
theorem tell_watched {callback : Option (Callback S E)} {steps : Nat} {x : Value} {status : Status}
    {w w' : World S E} (h : tell callback steps x status w = (.ok (), w')) (calls : List (Call S)) :
    tell (callback.map Callback.watched) steps x status (w.watched calls) =
      (.ok (), w'.watched (calls ++ tellings callback steps x (w.held x) status)) := by
  cases callback with
  | some report => exact Callback.watched_of_eq h calls
  | none =>
    cases h
    rw [tellings, List.append_nil]
    rfl

/-- Taking the norm of a watched gradient logs the gradient whose norm it is. -/
theorem gradientNorm_watched [Scalar S] {df : Evaluator S E} {x : Value} {w w' : World S E}
    {norm : S} (h : gradientNorm df x w = (.ok norm, w')) :
    ∃ g : Ref, df x w = (.ok (.matrix g), w') ∧ norm = (w'.store.get g).norm ∧
      ∀ calls : List (Call S), gradientNorm (df.watched .gradient) x (w.watched calls) =
        (.ok norm,
          w'.watched (calls ++ [.asked .gradient x (w.held x) (some (w'.store.get g))])) := by
  obtain ⟨g, hdf, rfl⟩ := gradientNorm_eq_ok_iff.mp h
  refine ⟨g, hdf, rfl, fun calls => ?_⟩
  exact gradientNorm_eq_ok_iff.mpr ⟨g, Evaluator.watched_of_eq .gradient hdf calls, rfl⟩

variable [SingularValues S]

/-- A step under watch does what it does without, and logs the gradient and the Hessian. -/
theorem step_watched {df ddf : Evaluator S E} {x : Value} {w w' : World S E} {status : Status}
    (h : Newton.step df ddf x w = (.ok status, w')) :
    ∃ (v : Value) (w₁ : World S E) (g b : DenseMatrix S), df x w = (.ok v, w₁) ∧
      ∀ calls : List (Call S),
        Newton.step (df.watched .gradient) (ddf.watched .hessian) x (w.watched calls) =
          (.ok status, w'.watched (calls ++
            [.asked .gradient x (w.held x) (some g), .asked .hessian x (w₁.held x) (some b)])) := by
  obtain ⟨r, g, b, o, w₁, w₂, rfl, hx, hg, hb, ho, rfl, rfl⟩ := Newton.step_eq_ok h
  refine ⟨.matrix g, w₁, w₁.store.get g, w₂.store.get b, hg, fun calls => ?_⟩
  -- the Hessian is logged behind the gradient
  have hg' := Evaluator.watched_of_eq .gradient hg calls
  have hb' := Evaluator.watched_of_eq .hessian hb
    (calls ++ [.asked .gradient (.matrix r) (w.held (.matrix r)) (some (w₁.store.get g))])
  rw [List.append_assoc] at hb'
  have hstep := Newton.step_of_outcome (w := w.watched calls) hx hg' hb' ho
  exact hstep

/-- **An advance under watch** logs the calls of its step, what the callback is told, and the calls
that the gradient after the step takes. -/
theorem advance_watched {df ddf : Evaluator S E} {callback : Option (Callback S E)} {r : Ref}
    {status : Status} {norm : S} {w w₁ w₂ w' : World S E} {before after : List (Call S)}
    (limits : Limits S) (p : Progress S)
    (hstep : ∀ calls : List (Call S),
      Newton.step (df.watched .gradient) (ddf.watched .hessian) (.matrix r) (w.watched calls) =
        (.ok status, w₁.watched (calls ++ before)))
    (htell : tell callback (p.steps + 1) (.matrix r) status w₁ = (.ok (), w₂))
    (hnorm : ∀ calls : List (Call S),
      gradientNorm (df.watched .gradient) (.matrix r) (w₂.watched calls) =
        (.ok norm, w'.watched (calls ++ after)))
    (calls : List (Call S)) :
    advance (df.watched .gradient) (ddf.watched .hessian) limits (callback.map Callback.watched)
        (.matrix r) p (w.watched calls) =
      (.ok ⟨p.steps + 1, status, norm, p.history ++ kept limits.keepHistory (w₁.store.get r)⟩,
        w'.watched (calls ++ (before ++
          tellings callback (p.steps + 1) (.matrix r) (w₁.held (.matrix r)) status ++ after))) := by
  have htell' := tell_watched htell (calls ++ before)
  have hnorm' := hnorm (calls ++ before ++
    tellings callback (p.steps + 1) (.matrix r) (w₁.held (.matrix r)) status)
  rw [← List.append_assoc, ← List.append_assoc]
  exact advance_eq_ok_iff.mpr ⟨r, status, _, _, norm, rfl, hstep calls, htell', hnorm', rfl⟩

/-- **The last call of an iteration.** Wherever an iteration stands, it stands there under watch as
well, and its last call asked for the gradient whose norm it keeps. -/
theorem Reached.exists_watched {df ddf : Evaluator S E} {limits : Limits S}
    {callback : Option (Callback S E)} {x : Value} {w₀ w : World S E} {p : Progress S}
    (h : Reached df ddf limits callback x w₀ p w) :
    ∃ (calls : List (Call S)) (w₁ : World S E) (g : Ref), df x w₁ = (.ok (.matrix g), w) ∧
      p.gradientNorm = (w.store.get g).norm ∧
      Reached (df.watched .gradient) (ddf.watched .hessian) limits (callback.map Callback.watched) x
        (w₀.watched []) p
        (w.watched (calls ++ [.asked .gradient x (w₁.held x) (some (w.store.get g))])) := by
  induction h with
  | start hnorm =>
    obtain ⟨g, hdf, hg, hnorm'⟩ := gradientNorm_watched hnorm
    exact ⟨[], w₀, g, hdf, hg, .start (hnorm' [])⟩
  | @advance p p' w w' hp hgo hadv ih =>
    -- what was the last call so far is the last no more
    obtain ⟨calls, w₁, g, -, -, hreached⟩ := ih
    obtain ⟨r, status, w₂, w₃, norm, rfl, hstep, htell, hnorm, rfl⟩ := advance_eq_ok_iff.mp hadv
    obtain ⟨_, _, a, b, -, hstep'⟩ := step_watched hstep
    obtain ⟨g', hdf, hg', hnorm'⟩ := gradientNorm_watched hnorm
    have hadv' := advance_watched limits p hstep' htell hnorm'
      (calls ++ [.asked .gradient (.matrix r) (w₁.held (.matrix r)) (some (w.store.get g))])
    rw [← List.append_assoc] at hadv'
    exact ⟨_, w₃, g', hdf, hg', hreached.advance hgo hadv'⟩

end Iteration

end NewtonRaphson
