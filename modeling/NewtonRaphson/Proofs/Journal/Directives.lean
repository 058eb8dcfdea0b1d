import Mathlib.Data.List.Basic
import NewtonRaphson.Proofs.Journal

/-! # Directives to the journal

What callers ask of a journal, as data: a logger, another level, other settings. Three operations
change levels and handlers, each in its own way, and yet all loggers look alike after any directives
whose templates are usable, also if some of them are refused for their levels.

* **`Journal.Directive`**, **`Journal.after`** — a directive, and the journal after several.
* **`Journal.InOrder.ext`** — a journal in order is known by its settings and by the names of its
  loggers.
* **`Journal.InOrder.request_follow`** — whether a logger is asked for before or after the settings
  are changed makes no difference.
* **`Journal.LoggersAgree`** — what all loggers have in common, and how requests tell them apart.
* **`Journal.loggersAgree_after`** — it holds after all directives whose templates are usable. -/

namespace NewtonRaphson

namespace Journal

variable {S : Type}

/-! ## (1) Directives -/

/-- A **directive** to the journal. -/
inductive Directive where
  /-- Asks for a logger. -/
  | request (given : Option String)
  /-- Sets the level. -/
  | setLevel (level : Datum)
  /-- Replaces the settings. -/
  | configure (level : Datum) (template stream : Option String)

namespace Directive

/-- Whether a directive returns, and the journal that it leaves behind. -/
def follow (j : Journal S) : Directive → Except Fault Unit × Journal S
  | request given => ((j.request given).1.map fun _ => (), (j.request given).2)
  | setLevel level => j.setLevel level
  | configure level template stream => j.configure level template stream

/-- A directive changes the settings, or tries to, unless it is a request. -/
def IsChange : Directive → Prop
  | request _ => False
  | setLevel _ | configure _ _ _ => True

/-- The template that a directive gives is usable; the empty one stands for the default. -/
def HasUsableTemplate : Directive → Prop
  | configure _ (some t) _ => t = "" ∨ Template.isUsable t = true
  | _ => True

/-- Settings with such a template are usable. -/
theorem isUsable_withSettings {given : Datum} {template stream : Option String}
    (h : (configure given template stream).HasUsableTemplate) (j : Journal S) (level : Int) :
    Template.isUsable (j.withSettings level template stream).template = true := by
  unfold withSettings
  dsimp only
  split
  · exact isUsable_defaultTemplate
  · exact isUsable_defaultTemplate
  · rename_i t hnonempty
    exact h.resolve_left hnonempty

end Directive

/-- The journal after directives one after the other, whether they return or are refused. -/
def after (j : Journal S) (ds : List Directive) : Journal S :=
  ds.foldl (fun j d => (d.follow j).2) j

@[simp] theorem after_nil (j : Journal S) : j.after [] = j := rfl

@[simp] theorem after_cons (j : Journal S) (d : Directive) (ds : List Directive) :
    j.after (d :: ds) = (d.follow j).2.after ds := rfl

/-! ## (2) Names -/

/-- A name **in the namespace**: that of the top logger, or one below it. -/
def IsInNamespace (name : String) : Prop :=
  name = rootName ∨ name.startsWith (rootName ++ ".") = true

theorem isInNamespace_fullName (given : Option String) : IsInNamespace (fullName given) := by
  cases given with
  | none => exact .inl rfl
  | some name =>
    unfold fullName
    dsimp only
    split
    · assumption
    · exact .inr (String.startsWith_string_iff.mpr ⟨name.toList, String.toList_append.symm⟩)

/-- Names in the namespace are full. -/
theorem fullName_of_isInNamespace {name : String} (h : IsInNamespace name) :
    fullName (some name) = name :=
  if_pos h

/-! ## (3) Journals in order -/

/-- The logger of a name as the settings say. -/
def standardLogger (j : Journal S) (name : String) : Logger := ⟨name, j.level, [j.handler], false⟩

namespace InOrder

variable {j j' : Journal S} {d : Directive}

/-- The loggers of a journal in order are known by the settings and by their names. -/
theorem loggers_eq (h : InOrder j) : j.loggers = j.known.map j.standardLogger := by
  rw [← h.names, List.map_map]
  refine (List.map_id _).symm.trans (List.map_congr_left fun l hl => ?_)
  obtain ⟨hlevel, hhandlers, hpropagates⟩ := h.setUp l hl
  obtain ⟨name, level, handlers, propagates⟩ := l
  cases hlevel
  cases hhandlers
  cases hpropagates
  rfl

/-- **A journal in order is known by its settings and by the names of its loggers**, apart from what
was written. -/
theorem ext (h : InOrder j) (h' : InOrder j') (hhandler : j.handler = j'.handler)
    (hknown : j.known = j'.known) (hwritten : j.written = j'.written) : j = j' := by
  have hloggers := h.loggers_eq
  have hloggers' := h'.loggers_eq
  obtain ⟨level, template, stream, loggers, known, written⟩ := j
  obtain ⟨level', template', stream', loggers', known', written'⟩ := j'
  cases hhandler
  cases hknown
  cases hwritten
  have hsame : loggers = loggers' := hloggers.trans hloggers'.symm
  rw [hsame]

/-- The names after a request: the one asked for is the last if it is new. -/
theorem known_request (h : InOrder j) (given : Option String) :
    (j.request given).2.known =
      if fullName given ∈ j.known then j.known else j.known ++ [fullName given] := by
  by_cases hname : fullName given ∈ j.known
  · rw [request_of_known hname, if_pos hname]
  · rw [request_of_new hname (h.ne_of_not_mem hname), newHandler_of_usable h.usable, if_neg hname]

/-- A request changes no settings and writes nothing. -/
theorem settings_request (h : InOrder j) (given : Option String) :
    (j.request given).2.handler = j.handler ∧ (j.request given).2.written = j.written := by
  by_cases hname : fullName given ∈ j.known
  · rw [request_of_known hname]
    exact ⟨rfl, rfl⟩
  · rw [request_of_new hname (h.ne_of_not_mem hname), newHandler_of_usable h.usable]
    exact ⟨rfl, rfl⟩

/-- **What a directive does to a journal in order**: it stays in order, and loggers are at most
added, with names in the namespace. -/
theorem follow (h : InOrder j) (hd : d.HasUsableTemplate) :
    InOrder (d.follow j).2 ∧
      ∃ added, (d.follow j).2.known = j.known ++ added ∧ ∀ name ∈ added, IsInNamespace name := by
  cases d with
  | request given =>
    refine ⟨(h.request given).2.1, ?_⟩
    show ∃ added, (j.request given).2.known = _ ∧ _
    rw [h.known_request given]
    split
    · exact ⟨[], (List.append_nil _).symm, nofun⟩
    · refine ⟨[fullName given], rfl, fun name hname => ?_⟩
      rw [List.mem_singleton.mp hname]
      exact isInNamespace_fullName given
  | setLevel given =>
    show InOrder (j.setLevel given).2 ∧ _
    rcases hlevel : Level.ofDatum given with cause | level
    · rw [Directive.follow, setLevel_of_error hlevel]
      exact ⟨h, [], (List.append_nil _).symm, nofun⟩
    · obtain ⟨horder, hknown⟩ := h.setLevel hlevel
      exact ⟨horder, [], hknown.trans (List.append_nil _).symm, nofun⟩
  | configure given template stream =>
    show InOrder (j.configure given template stream).2 ∧ _
    rcases hlevel : Level.ofDatum given with cause | level
    · rw [Directive.follow, configure_of_error hlevel]
      exact ⟨h, [], (List.append_nil _).symm, nofun⟩
    · obtain ⟨horder, hknown⟩ := h.configure hlevel (Directive.isUsable_withSettings hd j level)
      exact ⟨horder, [], hknown.trans (List.append_nil _).symm, nofun⟩

/-- So it is with several directives. -/
theorem after (h : InOrder j) {ds : List Directive} (hds : ∀ d ∈ ds, d.HasUsableTemplate) :
    InOrder (j.after ds) ∧
      ∃ added, (j.after ds).known = j.known ++ added ∧ ∀ name ∈ added, IsInNamespace name := by
  induction ds generalizing j with
  | nil => exact ⟨h, [], (List.append_nil _).symm, nofun⟩
  | cons d ds ih =>
    obtain ⟨hd, hds⟩ := List.forall_mem_cons.mp hds
    obtain ⟨hnext, first, hfirst, hfirstNames⟩ := h.follow hd
    obtain ⟨hlast, rest, hrest, hrestNames⟩ := ih hnext hds
    refine ⟨hlast, first ++ rest, ?_, fun name hname => ?_⟩
    · rw [after_cons, hrest, hfirst, List.append_assoc]
    · exact (List.mem_append.mp hname).elim (hfirstNames name) (hrestNames name)

/-- **A logger may be asked for before or after the settings are changed**: the journals are the
same, so that a new logger does not tell when it was set up. -/
theorem request_follow (h : InOrder j) (hd : d.HasUsableTemplate) (hchange : d.IsChange)
    (given : Option String) :
    (d.follow (j.request given).2).2 = ((d.follow j).2.request given).2 := by
  obtain ⟨-, hrequest, -⟩ := h.request given
  obtain ⟨hhandler, hwritten⟩ := h.settings_request given
  -- both journals are in order, so that only settings and names are compared
  have hleft := (hrequest.follow hd).1
  obtain ⟨-, hright, -⟩ := (h.follow hd).1.request given
  have hnames := (h.follow hd).1.known_request given
  obtain ⟨hhandler', hwritten'⟩ := (h.follow hd).1.settings_request given
  cases d with
  | request _ => exact hchange.elim
  | setLevel level =>
    rcases hlevel : Level.ofDatum level with cause | n
    · simp only [Directive.follow, setLevel_of_error hlevel]
    · refine hleft.ext hright (Eq.trans ?_ hhandler'.symm) (Eq.trans ?_ hnames.symm)
        (Eq.trans ?_ hwritten'.symm)
      all_goals simp only [Directive.follow, Journal.setLevel, hlevel]
      · exact congrArg (fun old : Handler => { old with level := n }) hhandler
      · exact h.known_request given
      · exact hwritten
  | configure level template stream =>
    rcases hlevel : Level.ofDatum level with cause | n
    · simp only [Directive.follow, configure_of_error hlevel]
    · have husable := Directive.isUsable_withSettings hd j n
      have husable' := Directive.isUsable_withSettings hd (j.request given).2 n
      refine hleft.ext hright (Eq.trans ?_ hhandler'.symm) (Eq.trans ?_ hnames.symm)
        (Eq.trans ?_ hwritten'.symm)
      all_goals simp only [Directive.follow, configure_of_ok hlevel, renewAll_of_usable husable,
        renewAll_of_usable husable']
      · rfl
      · exact h.known_request given
      · exact hwritten

end InOrder

/-! ## (4) Places -/

/-- The **place** of a name among the loggers. A logger never changes its place, and no other one
takes it, so that two requests are answered with one logger exactly if they are answered with one
place. -/
def placeOf (j : Journal S) (name : String) : Nat := (j.loggers.map (·.name)).idxOf name

theorem InOrder.placeOf_eq {j : Journal S} (h : InOrder j) (name : String) :
    j.placeOf name = j.known.idxOf name := by
  rw [placeOf, h.names]

/-- Directives leave known loggers in their places. -/
theorem InOrder.placeOf_after {j : Journal S} (h : InOrder j) {ds : List Directive}
    (hds : ∀ d ∈ ds, d.HasUsableTemplate) {name : String} (hname : name ∈ j.known) :
    (j.after ds).placeOf name = j.placeOf name := by
  obtain ⟨horder, added, hadded, -⟩ := h.after hds
  rw [horder.placeOf_eq, h.placeOf_eq, hadded, List.idxOf_append, if_pos hname]

/-! ## (5) What loggers have in common -/

/-- The **loggers agree** with the settings of their journal and with each other. -/
structure LoggersAgree (j : Journal S) : Prop where
  /-- The loggers are those that were asked for, in this order, -/
  known : j.loggers.map (·.name) = j.known
  /-- each of them once. -/
  nodup : j.known.Nodup
  /-- Their names are in the namespace. -/
  named : ∀ l ∈ j.loggers, IsInNamespace l.name
  /-- No logger hands its records on. -/
  quiet : ∀ l ∈ j.loggers, l.propagates = false
  /-- Each has the level of the settings, -/
  levels : ∀ l ∈ j.loggers, l.level = j.level
  /-- and one handler, with level, template and stream of the settings. -/
  handlers : ∀ l ∈ j.loggers, l.handlers = [⟨j.level, j.template, j.stream⟩]
  /-- Every request is answered with a logger, which has the full name, -/
  answers : ∀ given, (j.request given).1 = .ok (fullName given) ∧
    ∃ l ∈ (j.request given).2.loggers, l.name = fullName given
  /-- and asked for by this name again it is answered with the same one, without any change. -/
  again : ∀ given, (j.request given).2.request (some (fullName given)) =
    (.ok (fullName given), (j.request given).2)
  /-- Two requests are answered with one logger exactly if their full names are the same, whatever
  happens between them. -/
  same : ∀ first later second, (∀ d ∈ later, d.HasUsableTemplate) →
    ((j.request first).2.placeOf (fullName first) =
        (((j.request first).2.after later).request second).2.placeOf (fullName second) ↔
      fullName first = fullName second)
  /-- A logger that is asked for after a change of the settings is in the state of one that was
  asked for before. -/
  late : ∀ (d : Directive) (given : Option String), d.HasUsableTemplate → d.IsChange →
    (d.follow (j.request given).2).2 = ((d.follow j).2.request given).2

/-- In a journal that is in order, with names in the namespace, the loggers agree. -/
theorem InOrder.loggersAgree {j : Journal S} (h : InOrder j)
    (hnames : ∀ name ∈ j.known, IsInNamespace name) : LoggersAgree j where
  known := h.names
  nodup := h.nodup
  named l hl := hnames _ (h.mem_known hl)
  quiet l hl := (h.setUp l hl).2.2
  levels l hl := (h.setUp l hl).1
  handlers l hl := (h.setUp l hl).2.1
  answers given := by
    obtain ⟨hanswer, horder, hmem⟩ := h.request given
    rw [← horder.names] at hmem
    exact ⟨hanswer, List.mem_map.mp hmem⟩
  again given := by
    obtain ⟨-, -, hmem⟩ := h.request given
    have hfull := fullName_of_isInNamespace (isInNamespace_fullName given)
    have hknown : fullName (some (fullName given)) ∈ (j.request given).2.known := by
      rw [hfull]
      exact hmem
    have hanswer := request_of_known hknown
    rwa [hfull] at hanswer
  same first later second hlater := by
    obtain ⟨-, horder, hmem⟩ := h.request first
    obtain ⟨hafter, added, hadded, -⟩ := horder.after hlater
    obtain ⟨-, hlast, hmem'⟩ := hafter.request second
    -- the first logger is still in its place when the second one is asked for
    have hplace : (j.request first).2.placeOf (fullName first) =
        (((j.request first).2.after later).request second).2.placeOf (fullName first) := by
      have hdirectives : ∀ d ∈ later ++ [.request second], d.HasUsableTemplate := by
        intro d hd
        rcases List.mem_append.mp hd with hd | hd
        · exact hlater d hd
        · rw [List.mem_singleton.mp hd]
          exact True.intro
      have hstay := horder.placeOf_after hdirectives hmem
      rw [Journal.after, List.foldl_append] at hstay
      exact hstay.symm
    have hmem'' : fullName first ∈ (((j.request first).2.after later).request second).2.known := by
      rw [hafter.known_request second, hadded]
      split
      · exact List.mem_append_left _ hmem
      · exact List.mem_append_left _ (List.mem_append_left _ hmem)
    rw [hplace, hlast.placeOf_eq, hlast.placeOf_eq]
    exact List.idxOf_inj hmem''
  late d given hd hchange := h.request_follow hd hchange given

/-- The journal with the default settings and no loggers is in order. -/
theorem inOrder_empty :
    InOrder (⟨Level.warning, defaultTemplate, defaultStream, [], [], []⟩ : Journal S) :=
  ⟨isUsable_defaultTemplate, rfl, List.nodup_nil, nofun⟩

/-- At the start two loggers are set up, as if they had been asked for. -/
theorem inOrder_initial :
    InOrder (initial : Journal S) ∧ ∀ name ∈ (initial : Journal S).known, IsInNamespace name := by
  have hrequests : ∀ d ∈ [Directive.request (some stepLogger), .request (some iterationLogger)],
      d.HasUsableTemplate := by
    simp [Directive.HasUsableTemplate]
  obtain ⟨horder, added, hadded, hnames⟩ := inOrder_empty.after hrequests
  exact ⟨horder, hadded.symm ▸ hnames⟩

/-- **The loggers agree after all directives** whose templates are usable, including those that are
refused for their levels. -/
theorem loggersAgree_after {ds : List Directive} (hds : ∀ d ∈ ds, d.HasUsableTemplate) :
    LoggersAgree ((initial : Journal S).after ds) := by
  obtain ⟨horder, hnames⟩ := (inOrder_initial : InOrder (initial : Journal S) ∧ _)
  obtain ⟨hafter, added, hadded, haddedNames⟩ := horder.after hds
  refine hafter.loggersAgree fun name hname => ?_
  rw [hadded] at hname
  exact (List.mem_append.mp hname).elim (hnames name) (haddedNames name)

/-- A logger, a level that is refused, and then another level, template and stream. -/
def lateConfiguration : List Directive :=
  [.request (some "extra"), .setLevel (.text "LOUD"),
    .configure (.text "debug") (some "%(message)s") (some "log")]

/-- After these the logger that was asked for first writes like the two from the start, and keeps
its place when it is asked for by its full name. -/
theorem loggersAgree_after_lateConfiguration :
    ((initial : Journal Unit).after lateConfiguration).known =
        [stepLogger, iterationLogger, "newtonstep.extra"] ∧
      (∀ l ∈ ((initial : Journal Unit).after lateConfiguration).loggers,
        l.level = Level.debug ∧ l.handlers = [⟨Level.debug, "%(message)s", "log"⟩]) ∧
      ((initial : Journal Unit).after lateConfiguration).request (some "newtonstep.extra") =
        (.ok "newtonstep.extra", (initial : Journal Unit).after lateConfiguration) := by
  have husable : ∀ d ∈ lateConfiguration, d.HasUsableTemplate := by
    simp only [lateConfiguration, List.forall_mem_cons, Directive.HasUsableTemplate]
    exact ⟨True.intro, True.intro, .inr (by decide +kernel), nofun⟩
  have hagree : LoggersAgree ((initial : Journal Unit).after lateConfiguration) :=
    loggersAgree_after husable
  have hknown : ((initial : Journal Unit).after lateConfiguration).known =
      [stepLogger, iterationLogger, "newtonstep.extra"] := by
    decide +kernel
  have hhandler : ((initial : Journal Unit).after lateConfiguration).handler =
      ⟨Level.debug, "%(message)s", "log"⟩ := by
    decide +kernel
  refine ⟨hknown, fun l hl => ⟨?_, ?_⟩, ?_⟩
  · rw [hagree.levels l hl]
    exact congrArg Handler.level hhandler
  · rw [hagree.handlers l hl]
    exact congrArg (fun h : Handler => [h]) hhandler
  · have hfull : fullName (some "extra") = "newtonstep.extra" := by decide +kernel
    have hrequest : ((initial : Journal Unit).after lateConfiguration).request (some "extra") =
        (.ok "newtonstep.extra", (initial : Journal Unit).after lateConfiguration) := by
      rw [request_of_known (by rw [hfull, hknown]; decide), hfull]
    have hagain := hagree.again (some "extra")
    rwa [hrequest, hfull] at hagain

end Journal

end NewtonRaphson
