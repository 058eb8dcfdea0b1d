import NewtonRaphson.Differences
import NewtonRaphson.Proofs.Evaluator
import NewtonRaphson.Proofs.Frame

/-! # Pure functions of the caller

A pure function of the caller sees nothing of the world but what its point holds, and the matrices
that it was made with. So two runs that differ in everything else are carried on side by side.

* **`World.Alike w v x y`** — the value `x` holds in the world `w` what `y` holds in `v`.
* **`World.Grows`** — the frame in which no matrix is overwritten and the settings stay.
* **`Constants`** — the matrices that a function of the caller refers to besides its point.
* **`Action.Agree`** — two actions that are started in related worlds return related values there,
  or are refused for the same cause; **`Action.Same`** — the values are the same.
* **`Evaluator.Pure`**, **`Objective.Pure`** — from points that hold the same come answers that hold
  the same; no matrix is overwritten and the settings stay.
* **`Newton.step_cases_of_pure`** — two steps with pure evaluators are refused for the same cause,
  or work out their outcomes from the same point, gradient and Hessian. -/

namespace NewtonRaphson

variable {S E α β γ δ : Type}

/-! ## (1) Values that hold the same -/

/-- Two values **hold the same** in two worlds: matrices with the same content, or the same plain
value. -/
inductive World.Alike (w v : World S E) : Value → Value → Prop
  /-- Two matrices. -/
  | matrix {r q : Ref} {m : DenseMatrix S} (hr : w.store.get? r = some m)
      (hq : v.store.get? q = some m) :
      Alike w v (.matrix r) (.matrix q)
  /-- A plain value. -/
  | plain (d : Datum) : Alike w v (.plain d) (.plain d)

theorem World.Alike.held_eq {w v : World S E} {x y : Value} (h : w.Alike v x y) :
    w.held x = v.held y := by
  cases h with
  | matrix hr hq => exact hr.trans hq.symm
  | plain d => rfl

/-- A world **grows** into another one if no matrix is overwritten and the settings stay. -/
structure World.Grows (w w' : World S E) : Prop where
  /-- Every matrix is still there and holds what it held. -/
  held : ∀ x m, w.held x = some m → w'.held x = some m
  /-- The settings are the same. -/
  settings : w'.settings = w.settings

theorem World.Grows.refl (w : World S E) : w.Grows w := ⟨fun _ _ hx => hx, rfl⟩

theorem World.Grows.trans {w w' w'' : World S E} (h : w.Grows w') (h' : w'.Grows w'') :
    w.Grows w'' :=
  ⟨fun x m hx => h'.held x m (h.held x m hx), h'.settings.trans h.settings⟩

/-- **Growing is a frame.** -/
theorem World.isFrame_grows : World.IsFrame (World.Grows : World S E → World S E → Prop) where
  refl := .refl
  trans := .trans
  journal _ _ := ⟨fun _ _ hx => hx, rfl⟩

/-- Adding a matrix makes a world grow. -/
theorem Action.stays_add_grows (m : DenseMatrix S) : (add m : Action S E Ref).Stays World.Grows :=
  fun w => ⟨fun x n hx => leaves_add m x w n hx, rfl⟩

/-- What holds the same goes on to do so while the worlds grow. -/
theorem World.Alike.of_grows {w v w' v' : World S E} {x y : Value} (h : w.Alike v x y)
    (hw : w.Grows w') (hv : v.Grows v') : w'.Alike v' x y := by
  cases h with
  | matrix hr hq => exact .matrix (hw.held (.matrix _) _ hr) (hv.held (.matrix _) _ hq)
  | plain d => exact .plain d

/-- The **constants** of a function of the caller: the matrices that it refers to besides its point,
by their references. -/
abbrev Constants (S : Type) := Ref → Option (DenseMatrix S)

/-- A function without constants. -/
def Constants.none : Constants S := fun _ => .none

/-- A point is **apart** from constants if it is none of them. -/
def Constants.Apart (known : Constants S) (x : Value) : Prop := ∀ r, x = .matrix r → known r = .none

/-- A world **holds** constants if their references hold their matrices. -/
def World.Holds (w : World S E) (known : Constants S) : Prop :=
  ∀ r m, known r = some m → w.store.get? r = some m

theorem World.Holds.of_grows {known : Constants S} {w w' : World S E} (h : w.Holds known)
    (hw : w.Grows w') : w'.Holds known :=
  fun r m hm => hw.held (.matrix r) m (h r m hm)

theorem World.holds_none (w : World S E) : w.Holds Constants.none := nofun

/-- A pair of worlds for two runs side by side: the constants are there, the points hold the same,
and each world has its singularity factor. -/
structure World.Paired (known : Constants S) (x y : Value) (f g : S) (w v : World S E) : Prop where
  /-- The one world holds the constants. -/
  holds : w.Holds known
  /-- So does the other one. -/
  holds' : v.Holds known
  /-- The points hold the same. -/
  alike : w.Alike v x y
  /-- The factor in the one world. -/
  left : w.settings.factor = f
  /-- The factor in the other one. -/
  right : v.settings.factor = g

/-! ## (2) Actions side by side -/

namespace Action

/-- Two results **agree**: both actions are refused for the same cause, or return related values;
the worlds they leave are related in either case. -/
inductive Agreement (J : World S E → World S E → Prop) (V : World S E → World S E → α → β → Prop) :
    Except Fault α × World S E → Except Fault β × World S E → Prop
  /-- Both are refused. -/
  | refused {cause : Fault} {w v : World S E} (hJ : J w v) :
      Agreement J V (.error cause, w) (.error cause, v)
  /-- Both return. -/
  | returned {a : α} {b : β} {w v : World S E} (hJ : J w v) (hV : V w v a b) :
      Agreement J V (.ok a, w) (.ok b, v)

/-- Two actions **agree** from worlds in the relation `P` on: the worlds they leave are in the
relation `J`, and the values they return in the relation `V`. -/
def Agree (P J : World S E → World S E → Prop) (V : World S E → World S E → α → β → Prop)
    (a : Action S E α) (b : Action S E β) : Prop :=
  ∀ w v, P w v → Agreement J V (a w) (b v)

/-- Two actions that come to the **same**: they keep a relation of worlds, and return the same value
or are refused for the same cause. -/
def Same (J : World S E → World S E → Prop) (a b : Action S E α) : Prop :=
  Agree J J (fun _ _ => Eq) a b

variable {P J : World S E → World S E → Prop} {V : World S E → World S E → α → β → Prop}
variable {U : World S E → World S E → γ → δ → Prop}

/-- Results agree on the same value if they are the same. -/
theorem agreement_eq_iff {out out' : Except Fault α × World S E} :
    Agreement J (fun _ _ => Eq) out out' ↔ out.1 = out'.1 ∧ J out.2 out'.2 := by
  constructor
  · intro h
    cases h with
    | refused hJ => exact ⟨rfl, hJ⟩
    | returned hJ hV => exact ⟨congrArg Except.ok hV, hJ⟩
  · rcases out with ⟨out, w⟩
    rcases out' with ⟨out', v⟩
    rintro ⟨rfl, hJ⟩
    cases out with
    | error cause => exact .refused hJ
    | ok a => exact .returned hJ rfl

/-- Less may be asked of the worlds at the end. -/
theorem Agreement.of_imp {J' : World S E → World S E → Prop} {out : Except Fault α × World S E}
    {out' : Except Fault β × World S E} (h : Agreement J V out out')
    (himp : ∀ w v, J w v → J' w v) : Agreement J' V out out' := by
  cases h with
  | refused hJ => exact .refused (himp _ _ hJ)
  | returned hJ hV => exact .returned (himp _ _ hJ) hV

theorem agree_pure {a : α} {b : β} (h : ∀ w v, J w v → V w v a b) : Agree J J V (pure a) (pure b) :=
  fun w v hJ => .returned hJ (h w v hJ)

theorem agree_fail (cause : Fault) : Agree J J V (fail cause) (fail cause) :=
  fun _ _ hJ => .refused hJ

theorem same_pure (a : α) : Same J (pure a) (pure a) := agree_pure fun _ _ _ => rfl

theorem same_fail (cause : Fault) : Same J (fail cause : Action S E α) (fail cause) :=
  agree_fail cause

theorem same_ofExcept (x : Except Fault α) : Same J (ofExcept x) (ofExcept x) :=
  fun _ _ hJ => agreement_eq_iff.mpr ⟨rfl, hJ⟩

/-- **One action after another**: if the first ones agree, and the second ones do from there on, so
do both. -/
theorem Agree.bind {a : Action S E α} {b : Action S E β} {f : α → Action S E γ}
    {g : β → Action S E δ} (hab : Agree P J V a b)
    (hfg : ∀ x y, Agree (fun w v => J w v ∧ V w v x y) J U (f x) (g y)) :
    Agree P J U (a >>= f) (b >>= g) := by
  intro w v hP
  have hagree := hab w v hP
  rw [bind_apply, bind_apply]
  generalize a w = out at hagree
  generalize b v = out' at hagree
  cases hagree with
  | refused hJ => exact .refused hJ
  | returned hJ hV => exact hfg _ _ _ _ ⟨hJ, hV⟩

/-- After actions that come to the same, the rest is compared for each value. -/
theorem Same.bind_agree {a b : Action S E α} {f : α → Action S E γ} {g : α → Action S E δ}
    (hab : Same J a b) (hfg : ∀ x, Agree J J U (f x) (g x)) : Agree J J U (a >>= f) (b >>= g) := by
  refine Agree.bind hab fun x y w v h => ?_
  obtain ⟨hJ, rfl⟩ := h
  exact hfg x w v hJ

/-- Actions that come to the same do so one after the other. -/
theorem Same.bind {a b : Action S E α} {f g : α → Action S E γ} (hab : Same J a b)
    (hfg : ∀ x, Same J (f x) (g x)) : Same J (a >>= f) (b >>= g) :=
  hab.bind_agree hfg

/-- So do lists of them. -/
theorem same_mapM {f g : γ → Action S E α} (hfg : ∀ c, Same J (f c) (g c)) (cs : List γ) :
    Same J (cs.mapM f) (cs.mapM g) := by
  induction cs with
  | nil =>
    rw [List.mapM_nil, List.mapM_nil]
    exact same_pure []
  | cons c cs ih =>
    rw [List.mapM_cons, List.mapM_cons]
    exact (hfg c).bind fun a => ih.bind fun as => same_pure (a :: as)

/-- **Staying in a frame is a comparison with oneself**: an action stays in a frame exactly if it
comes to the same as itself while the worlds compared are one and related to where they came
from. -/
theorem stays_iff_same {R : World S E → World S E → Prop} (hR : World.IsFrame R)
    {a : Action S E α} : a.Stays R ↔ ∀ u, Same (fun w v => w = v ∧ R u w) a a := by
  constructor
  · rintro h u w _ ⟨rfl, hu⟩
    exact agreement_eq_iff.mpr ⟨rfl, rfl, hR.trans hu (h w)⟩
  · intro h w
    exact (agreement_eq_iff.mp (h w w w ⟨rfl, hR.refl w⟩)).2.2

end Action

/-! ## (3) Pure functions of the caller -/

/-- An evaluator with constants is **pure** if its answer depends on nothing but what the point and
the constants hold, and nothing else that can be seen is done: no matrix is overwritten, and the
settings stay. -/
structure Evaluator.Pure (known : Constants S) (f : Evaluator S E) : Prop where
  /-- From points that hold the same come answers that hold the same. -/
  answers : ∀ {x y : Value} {w v : World S E}, w.Holds known → v.Holds known → w.Alike v x y →
    Action.Agreement (fun _ _ => True) World.Alike (f x w) (f y v)
  /-- No matrix is overwritten. -/
  leaves : ∀ x y, (f x).Leaves y
  /-- The settings are left alone. -/
  settings : ∀ x w, (f x w).2.settings = w.settings

/-- An objective is **pure** in the same way; its answer is a number. -/
structure Objective.Pure (known : Constants S) (f : Objective S E) : Prop where
  /-- From points that hold the same comes the same number. -/
  answers : ∀ {r q : Ref} {m : DenseMatrix S} {w v : World S E}, w.Holds known → v.Holds known →
    w.store.get? r = some m → v.store.get? q = some m → (f r w).1 = (f q v).1
  /-- No matrix is overwritten. -/
  leaves : ∀ r y, (f r).Leaves y
  /-- The settings are left alone. -/
  settings : ∀ r w, (f r w).2.settings = w.settings

/-- The evaluator of a function is pure, whatever constants it might have. -/
theorem Evaluator.pure_ofFunction [Scalar S] (F : DenseMatrix S → Except Fault (DenseMatrix S))
    (known : Constants S) : (ofFunction F : Evaluator S E).Pure known where
  answers := by
    intro x y w v _ _ h
    cases h with
    | plain d => exact .refused True.intro
    | matrix hr hq =>
      rw [ofFunction_matrix, ofFunction_matrix, Store.get_of_get? hr, Store.get_of_get? hq]
      rcases F _ with cause | n
      · exact .refused True.intro
      · exact .returned True.intro (.matrix (Store.get?_add_size _ n) (Store.get?_add_size _ n))
  leaves := (computes_ofFunction F).leaves
  settings := (computes_ofFunction F).settings

/-- The evaluator that answers with one and the same matrix of the store is pure; this matrix is its
constant. -/
theorem Evaluator.pure_constantly (q : Ref) {known : Constants S} {m : DenseMatrix S}
    (hq : known q = some m) : Evaluator.Pure known (fun _ => pure (.matrix q) : Evaluator S E) where
  answers := fun hw hv _ => .returned True.intro (.matrix (hw q m hq) (hv q m hq))
  leaves := fun _ => Action.leaves_pure _
  settings := fun _ _ => rfl

/-- The objective that is a function of what the point holds is pure. -/
theorem Objective.pure_ofFunction [Scalar S] (F : DenseMatrix S → S) (known : Constants S) :
    Objective.Pure known (fun r => F <$> Action.read r : Objective S E) where
  answers := by
    intro r q m w v _ _ hr hq
    rw [Action.map_apply, Action.map_apply]
    show F <$> Except.ok (w.store.get r) = F <$> Except.ok (v.store.get q)
    rw [Store.get_of_get? hr, Store.get_of_get? hq]
  leaves := fun r y => (Action.leaves_read r y).bind fun m => Action.leaves_pure _ y
  settings := fun _ _ => rfl

/-- An evaluator that answers with a new matrix is pure if this matrix depends on what the point
holds only, and is computed without overwriting a matrix or changing the settings. -/
theorem Evaluator.pure_of_added {known : Constants S} {a : Value → Action S E (DenseMatrix S)}
    (hsame : ∀ {y z : Value} {w v : World S E}, w.Holds known → v.Holds known → w.Alike v y z →
      (a y w).1 = (a z v).1)
    (hgrows : ∀ x, (a x).Stays World.Grows) :
    Evaluator.Pure known fun x => do return .matrix (← Action.add (← a x)) := by
  have hR : World.IsFrame (World.Grows : World S E → World S E → Prop) := World.isFrame_grows
  have hanswer (x : Value) :
      (do return .matrix (← Action.add (← a x)) : Action S E Value).Stays World.Grows :=
    (hgrows x).bind hR fun m => (Action.stays_add_grows m).bind hR fun r => Action.stays_pure hR _
  refine ⟨?_, fun x y w m hm => (hanswer x w).held y m hm, fun x w => (hanswer x w).settings⟩
  · intro y z w v hw hv h
    have heq := hsame hw hv h
    -- what was computed is added on either side, at the reference that is next there
    rcases hleft : a y w with ⟨out, w'⟩
    rcases hright : a z v with ⟨out', v'⟩
    rw [hleft, hright] at heq
    obtain rfl : out = out' := heq
    cases out with
    | error cause =>
      rw [Action.bind_of_error hleft, Action.bind_of_error hright]
      exact .refused True.intro
    | ok m =>
      rw [Action.bind_of_ok hleft, Action.bind_of_ok hright]
      exact .returned True.intro (.matrix (Store.get?_add_size _ m) (Store.get?_add_size _ m))

variable {known : Constants S} {x y : Value} {f g : S}

/-- Pairs of worlds stay pairs while both grow. -/
theorem World.Paired.of_grows {w v w' v' : World S E} (h : w.Paired known x y f g v)
    (hw : w.Grows w') (hv : v.Grows v') : w'.Paired known x y f g v' where
  holds := h.holds.of_grows hw
  holds' := h.holds'.of_grows hv
  alike := h.alike.of_grows hw hv
  left := (congrArg Settings.factor hw.settings).trans h.left
  right := (congrArg Settings.factor hv.settings).trans h.right

/-- Asking a pure evaluator makes the world grow. -/
theorem Evaluator.Pure.grows {df : Evaluator S E} (hdf : df.Pure known) (x : Value) :
    (df x).Stays World.Grows :=
  fun w => ⟨fun y m hy => hdf.leaves x y w m hy, hdf.settings x w⟩

/-- **A pure evaluator at the points of two runs** makes both worlds grow, so that they stay a pair,
and gives answers that hold the same. -/
theorem Evaluator.Pure.agree {df : Evaluator S E} (hdf : df.Pure known) {w v : World S E}
    (h : w.Paired known x y f g v) :
    Action.Agreement (fun w' v' => w.Grows w' ∧ v.Grows v' ∧ w'.Paired known x y f g v') World.Alike
      (df x w) (df y v) := by
  have hanswers := hdf.answers h.holds h.holds' h.alike
  have hw := hdf.grows x w
  have hv := hdf.grows y v
  have hpaired := h.of_grows hw hv
  generalize df x w = out at hanswers hw hpaired ⊢
  generalize df y v = out' at hanswers hv hpaired ⊢
  cases hanswers with
  | refused _ => exact .refused ⟨hw, hv, hpaired⟩
  | returned _ hV => exact .returned ⟨hw, hv, hpaired⟩ hV

/-! ## (4) Steps side by side -/

/-- What the reference of a point holds after the same outcome was carried out in two worlds where
it held the same. -/
theorem StepOutcome.get?_settle_congr {r q : Ref} {s t : Store S} {m : DenseMatrix S}
    (hr : s.get? r = some m) (hq : t.get? q = some m) (o : StepOutcome S) :
    (o.settle r s).get? r = (o.settle q t).get? q :=
  (get?_settle hr).trans (get?_settle hq).symm

namespace Newton

/-- What comes of asking a pure evaluator at the points of two runs: both answers are refused for
the same cause, or both are matrices that hold the same. -/
theorem evaluate_cases_of_pure {df : Evaluator S E} (hdf : df.Pure known) (which : Derivative)
    {w v : World S E} (h : w.Paired known x y f g v) :
    ∃ w' v', w.Grows w' ∧ v.Grows v' ∧ w'.Paired known x y f g v' ∧
      ((∃ cause, evaluate which df x w = (.error cause, w') ∧
        evaluate which df y v = (.error cause, v')) ∨
        ∃ a b n, evaluate which df x w = (.ok a, w') ∧ evaluate which df y v = (.ok b, v') ∧
          w'.store.get? a = some n ∧ v'.store.get? b = some n) := by
  have hagree := hdf.agree h
  rcases hw : df x w with ⟨out, w'⟩
  rcases hv : df y v with ⟨out', v'⟩
  rw [hw, hv] at hagree
  rcases hagree with ⟨hgrows, hgrows', hpaired⟩ | ⟨⟨hgrows, hgrows', hpaired⟩, halike⟩
  · exact ⟨w', v', hgrows, hgrows', hpaired,
      .inl ⟨_, Action.bind_of_error hw, Action.bind_of_error hv⟩⟩
  · refine ⟨w', v', hgrows, hgrows', hpaired, ?_⟩
    cases halike with
    | matrix ha hb =>
      exact .inr ⟨_, _, _, evaluate_eq_ok_iff.mpr hw, evaluate_eq_ok_iff.mpr hv, ha, hb⟩
    | plain d => exact .inl ⟨_, evaluate_of_plain hw which, evaluate_of_plain hv which⟩

variable [SingularValues S]

/-- The end of a step that was not refused before its outcome is worked out: from the content of
point, gradient and Hessian, at the point of a reference. -/
def finish (factor : S) (r : Ref) (m a b : DenseMatrix S) (w : World S E) :
    Except Fault Status × World S E :=
  match outcome factor m a b with
  | .error cause => (.error cause, w)
  | .ok o => (.ok o.status, o.carryOut r m w)

/-- A step whose evaluators answered with matrices is finished. -/
theorem step_eq_finish {df ddf : Evaluator S E} {r a b : Ref} {m n l : DenseMatrix S}
    {w w₁ w₂ : World S E} (hm : w.store.get? r = some m) (hvector : m.isVector = true)
    (ha : evaluate .gradient df (.matrix r) w = (.ok a, w₁))
    (hb : evaluate .hessian ddf (.matrix r) w₁ = (.ok b, w₂))
    (hm₂ : w₂.store.get? r = some m) (hn : w₂.store.get? a = some n)
    (hl : w₂.store.get? b = some l) :
    step df ddf (.matrix r) w = finish w₂.settings.factor r m n l w₂ := by
  rw [step_matrix, Store.get_of_get? hm, if_pos hvector, ha]
  dsimp only
  rw [hb]
  dsimp only
  rw [Store.get_of_get? hm₂, Store.get_of_get? hn, Store.get_of_get? hl]
  rfl

/-- **Two steps with pure evaluators**, from points that hold the same: both are refused for the
same cause, or both are finished from the same contents, each with the factor of its world. -/
theorem step_cases_of_pure {df ddf : Evaluator S E} (hdf : df.Pure known) (hddf : ddf.Pure known)
    {w v : World S E} (h : w.Paired known x y f g v) :
    ∃ w' v', w.Grows w' ∧ v.Grows v' ∧ w'.Paired known x y f g v' ∧
      ((∃ cause, step df ddf x w = (.error cause, w') ∧ step df ddf y v = (.error cause, v')) ∨
        ∃ r q m n l, x = .matrix r ∧ y = .matrix q ∧ w'.store.get? r = some m ∧
          v'.store.get? q = some m ∧
          step df ddf x w = finish f r m n l w' ∧ step df ddf y v = finish g q m n l v') := by
  rcases h.alike with @⟨r, q, m, hr, hq⟩ | d
  case plain => exact ⟨w, v, .refl w, .refl v, h, .inl ⟨_, rfl, rfl⟩⟩
  by_cases hvector : m.isVector = true
  · obtain ⟨w₁, v₁, hw₁, hv₁, hpaired₁, ⟨cause, hgw, hgv⟩ | ⟨a, b, n, hgw, hgv, ha, hb⟩⟩ :=
      evaluate_cases_of_pure hdf .gradient h
    · refine ⟨w₁, v₁, hw₁, hv₁, hpaired₁, .inl ⟨cause, ?_, ?_⟩⟩
      · rw [step_matrix, Store.get_of_get? hr, if_pos hvector, hgw]
      · rw [step_matrix, Store.get_of_get? hq, if_pos hvector, hgv]
    obtain ⟨w₂, v₂, hw₂, hv₂, hpaired₂, ⟨cause, hhw, hhv⟩ | ⟨c, d, l, hhw, hhv, hc, hd⟩⟩ :=
      evaluate_cases_of_pure hddf .hessian hpaired₁
    · refine ⟨w₂, v₂, hw₁.trans hw₂, hv₁.trans hv₂, hpaired₂, .inl ⟨cause, ?_, ?_⟩⟩
      · rw [step_matrix, Store.get_of_get? hr, if_pos hvector, hgw]
        dsimp only
        rw [hhw]
      · rw [step_matrix, Store.get_of_get? hq, if_pos hvector, hgv]
        dsimp only
        rw [hhv]
    -- point and gradient are still there when the outcome is worked out
    have hr₂ : w₂.store.get? r = some m := (hw₁.trans hw₂).held (.matrix r) m hr
    have hq₂ : v₂.store.get? q = some m := (hv₁.trans hv₂).held (.matrix q) m hq
    refine ⟨w₂, v₂, hw₁.trans hw₂, hv₁.trans hv₂, hpaired₂,
      .inr ⟨r, q, m, n, l, rfl, rfl, hr₂, hq₂, ?_, ?_⟩⟩
    · rw [step_eq_finish hr hvector hgw hhw hr₂ (hw₂.held (.matrix a) n ha) hc, hpaired₂.left]
    · rw [step_eq_finish hq hvector hgv hhv hq₂ (hv₂.held (.matrix b) n hb) hd, hpaired₂.right]
  · refine ⟨w, v, .refl w, .refl v, h, .inl ⟨.pointShape m.shape, ?_, ?_⟩⟩
    · rw [step_matrix, Store.get_of_get? hr, if_neg hvector]
    · rw [step_matrix, Store.get_of_get? hq, if_neg hvector]

end Newton

end NewtonRaphson
