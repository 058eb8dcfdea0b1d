import NewtonRaphson.Proofs.Action

/-! # Changes of the journal's settings

The loggers of a journal agree with its settings as long as every change of them returned. A change
that is refused may break this:

* **`Journal.InOrder`** — the template is usable, and each logger was set up as the settings say. It
  holds of every journal that comes of changes that returned (`Journal.inOrder_of_reached`).
* **`Journal.configure_of_error`**, **`Journal.InOrder.configure_of_not_usable`** — a level that is
  refused is refused before anything is changed, an unusable template only after the settings and
  the first logger were.
* **`Journal.refused_change`** — what a refused change leaves behind. -/

namespace NewtonRaphson

namespace Journal

variable {S : Type}

/-! ## (1) Journals in order -/

/-- The handler that the settings describe. -/
def handler (j : Journal S) : Handler := ⟨j.level, j.template, j.stream⟩

theorem isUsable_defaultTemplate : Template.isUsable defaultTemplate = true := by decide +kernel

theorem newHandler_of_usable {j : Journal S} (h : Template.isUsable j.template = true) :
    j.newHandler = .ok j.handler := if_pos h

theorem newHandler_of_not_usable {j : Journal S} (h : Template.isUsable j.template = false) :
    j.newHandler = .error .badValue := if_neg (Bool.eq_false_iff.mp h)

/-- A logger is **set up** if it has the level and the handler of the settings, and its ancestors do
not get its records. -/
def IsSetUp (j : Journal S) (l : Logger) : Prop :=
  l.level = j.level ∧ l.handlers = [j.handler] ∧ l.propagates = false

/-- A journal is **in order** if its template is usable and its loggers are those that are known,
each of them set up. -/
structure InOrder (j : Journal S) : Prop where
  /-- Handlers can be made. -/
  usable : Template.isUsable j.template = true
  /-- The loggers are known by their names, in the order of their creation. -/
  names : j.loggers.map (·.name) = j.known
  /-- No name is known twice. -/
  nodup : j.known.Nodup
  /-- Each logger writes as the settings say, and only there. -/
  setUp : ∀ l ∈ j.loggers, j.IsSetUp l

/-- The name of each logger is known. -/
theorem InOrder.mem_known {j : Journal S} (h : InOrder j) {l : Logger} (hl : l ∈ j.loggers) :
    l.name ∈ j.known := by
  rw [← h.names]
  exact List.mem_map_of_mem hl

/-- No logger has a name that is not known. -/
theorem InOrder.ne_of_not_mem {j : Journal S} (h : InOrder j) {name : String}
    (hname : name ∉ j.known) (l : Logger) (hl : l ∈ j.loggers) : l.name ≠ name := by
  rintro rfl
  exact hname (h.mem_known hl)

/-- Loggers that keep their names keep the names that are known. -/
theorem InOrder.names_map {j : Journal S} (h : InOrder j) {f : Logger → Logger}
    (hf : ∀ l, (f l).name = l.name) : (j.loggers.map f).map (·.name) = j.known := by
  rw [List.map_map, ← h.names]
  exact List.map_congr_left fun l _ => hf l

/-- A journal in order that knows a logger has a first one. -/
theorem InOrder.exists_cons {j : Journal S} (h : InOrder j) (hknown : j.known ≠ []) :
    ∃ first rest, j.loggers = first :: rest := by
  refine List.exists_cons_of_ne_nil fun hnil => hknown ?_
  rw [← h.names, hnil]
  rfl

/-! ## (2) Requests -/

/-- A request for a known name changes nothing. -/
theorem request_of_known {j : Journal S} {given : Option String} (h : fullName given ∈ j.known) :
    j.request given = (.ok (fullName given), j) := by
  rw [request]
  exact if_pos (List.contains_iff_mem.mpr h)

section New

variable {ls : List Logger} {l : Logger}

/-- A change of the logger of a name that no logger has changes nothing. -/
theorem map_modify_of_ne {name : String} (h : ∀ k ∈ ls, k.name ≠ name) (f : Logger → Logger) :
    (ls.map fun k => if k.name = name then f k else k) = ls :=
  (List.map_congr_left fun k hk => if_neg (h k hk)).trans (List.map_id ls)

/-- A change of the last logger. -/
theorem modify_append_new (j : Journal S) (h : ∀ k ∈ ls, k.name ≠ l.name) (f : Logger → Logger) :
    ({ j with loggers := ls ++ [l] } : Journal S).modify l.name f =
      { j with loggers := ls ++ [f l] } := by
  rw [modify, List.map_append, map_modify_of_ne h, List.map_singleton, if_pos rfl]

/-- The last logger is found if no other one has its name. -/
theorem find?_append_new (j : Journal S) (h : ∀ k ∈ ls, k.name ≠ l.name) :
    ({ j with loggers := ls ++ [l] } : Journal S).find? l.name = some l := by
  have hnone : ls.find? (fun k => k.name == l.name) = none :=
    List.find?_eq_none.mpr fun k hk heq => h k hk (beq_iff_eq.mp heq)
  rw [find?, List.find?_append, hnone, Option.none_or, List.find?_singleton,
    beq_self_eq_true, if_pos rfl]

/-- **A request for a new name** creates its logger and gives it the level of the settings. If a
handler can be made, the logger gets it and is known from then on. -/
theorem request_of_new {j : Journal S} {given : Option String} (hname : fullName given ∉ j.known)
    (hls : ∀ k ∈ j.loggers, k.name ≠ fullName given) :
    j.request given =
      match j.newHandler with
      | .error cause =>
        (.error cause, { j with loggers := j.loggers ++ [⟨fullName given, j.level, [], true⟩] })
      | .ok handler =>
        (.ok (fullName given), { j with
          loggers := j.loggers ++ [⟨fullName given, j.level, [handler], false⟩]
          known := j.known ++ [fullName given] }) := by
  have hcontains : ¬ j.known.contains (fullName given) = true :=
    fun h => hname (List.contains_iff_mem.mp h)
  have hnone : j.find? (fullName given) = none :=
    List.find?_eq_none.mpr fun k hk heq => hls k hk (beq_iff_eq.mp heq)
  -- the logger is created, and found without handlers
  have hfind :
      ({ j with loggers := j.loggers ++ [⟨fullName given, 0, [], true⟩] } : Journal S).find?
      (fullName given) = some ⟨fullName given, 0, [], true⟩ := find?_append_new j hls
  have hlevel :
      ({ j with loggers := j.loggers ++ [⟨fullName given, 0, [], true⟩] } : Journal S).modify
        (fullName given) (fun l => { l with level := j.level }) =
      { j with loggers := j.loggers ++ [⟨fullName given, j.level, [], true⟩] } :=
    modify_append_new j hls _
  have hhandler (handler : Handler) :
      ({ j with loggers := j.loggers ++ [⟨fullName given, j.level, [], true⟩] } : Journal S).modify
        (fullName given) (fun l => { l with handlers := [handler], propagates := false }) =
      { j with loggers := j.loggers ++ [⟨fullName given, j.level, [handler], false⟩] } :=
    modify_append_new j hls _
  have hnew : ({ j with loggers := j.loggers ++ [⟨fullName given, j.level, [], true⟩] } :
      Journal S).newHandler = j.newHandler := rfl
  rw [request]
  dsimp only
  rw [if_neg hcontains, hnone, Option.isSome_none, if_neg Bool.false_ne_true, hfind, hlevel, hnew]
  rcases j.newHandler with cause | handler
  · rfl
  · dsimp only
    rw [hhandler]
    rfl

end New

/-- A journal in order stays so after a request, which returns. -/
theorem InOrder.request {j : Journal S} (h : InOrder j) (given : Option String) :
    (j.request given).1 = .ok (fullName given) ∧ InOrder (j.request given).2 ∧
      fullName given ∈ (j.request given).2.known := by
  by_cases hname : fullName given ∈ j.known
  · rw [request_of_known hname]
    exact ⟨rfl, h, hname⟩
  · rw [request_of_new hname (h.ne_of_not_mem hname), newHandler_of_usable h.usable]
    refine ⟨rfl, ⟨h.usable, ?_, ?_, ?_⟩, List.mem_append_right _ (List.mem_singleton_self _)⟩
    · show (j.loggers ++ [_]).map Logger.name = j.known ++ [fullName given]
      rw [List.map_append, h.names]
      rfl
    · refine List.nodup_append.mpr ⟨h.nodup,
        List.nodup_cons.mpr ⟨List.not_mem_nil, List.nodup_nil⟩, ?_⟩
      intro a ha b hb
      rw [List.mem_singleton.mp hb]
      rintro rfl
      exact hname ha
    · intro l hl
      rcases List.mem_append.mp hl with hl | hl
      · exact h.setUp l hl
      · rw [List.mem_singleton.mp hl]
        exact ⟨rfl, rfl, rfl⟩

/-! ## (3) Changes of the level -/

/-- A level that is refused changes nothing. -/
theorem setLevel_of_error {given : Datum} {cause : Fault} (h : Level.ofDatum given = .error cause)
    (j : Journal S) : j.setLevel given = (.error cause, j) := by
  rw [setLevel, h]

/-- A journal in order stays so after a change of the level that returns. -/
theorem InOrder.setLevel {j : Journal S} (h : InOrder j) {given : Datum} {level : Int}
    (hlevel : Level.ofDatum given = .ok level) :
    InOrder (j.setLevel given).2 ∧ (j.setLevel given).2.known = j.known := by
  rw [Journal.setLevel, hlevel]
  refine ⟨⟨h.usable, h.names_map fun l => ?_, h.nodup, ?_⟩, rfl⟩
  · split <;> rfl
  · intro l hl
    obtain ⟨k, hk, rfl⟩ := List.mem_map.mp hl
    obtain ⟨-, hhandlers, hpropagates⟩ := h.setUp k hk
    rw [if_pos (List.contains_iff_mem.mpr (h.mem_known hk)), hhandlers]
    exact ⟨rfl, rfl, hpropagates⟩

/-! ## (4) Configurations -/

/-- The journal with new settings, before any logger is renewed. Without a template, or with an
empty one, the default is used. -/
def withSettings (j : Journal S) (level : Int) (template stream : Option String) : Journal S :=
  { j with
    level
    template := match template with
      | none | some "" => defaultTemplate
      | some t => t
    stream := stream.getD defaultStream }

/-- A configuration whose level is refused changes nothing. -/
theorem configure_of_error {given : Datum} {cause : Fault} (h : Level.ofDatum given = .error cause)
    (j : Journal S) (template stream : Option String) :
    j.configure given template stream = (.error cause, j) := by
  unfold configure
  rw [h]

/-- Otherwise it renews all known loggers under the new settings. -/
theorem configure_of_ok {given : Datum} {level : Int} (h : Level.ofDatum given = .ok level)
    (j : Journal S) (template stream : Option String) :
    j.configure given template stream =
      (j.withSettings level template stream).renewAll j.known := by
  unfold configure
  rw [h]
  rfl

/-- A logger with the level and the handler of the settings. -/
def renew (j : Journal S) (l : Logger) : Logger :=
  { l with level := j.level, handlers := [j.handler] }

/-- Two changes of the logger of a name are one. -/
theorem modify_modify (j : Journal S) (name : String) {f : Logger → Logger} (g : Logger → Logger)
    (hf : ∀ l, (f l).name = l.name) :
    (j.modify name f).modify name g = j.modify name fun l => g (f l) := by
  rw [modify, modify, modify, List.map_map]
  congr 1
  refine List.map_congr_left fun l _ => ?_
  by_cases hname : l.name = name
  · simp only [Function.comp, if_pos hname, hf]
  · simp only [Function.comp, if_neg hname]

/-- With a usable template the first logger is renewed, then the rest. -/
theorem renewAll_cons_of_usable {j : Journal S} (h : Template.isUsable j.template = true)
    (name : String) (rest : List String) :
    j.renewAll (name :: rest) = (j.modify name j.renew).renewAll rest := by
  rw [renewAll, newHandler_of_usable (by exact h)]
  dsimp only
  exact congrArg (renewAll · rest) (modify_modify j name _ fun _ => rfl)

/-- So all loggers of the given names are renewed. -/
theorem renewAll_of_usable {j : Journal S} (h : Template.isUsable j.template = true)
    (names : List String) :
    j.renewAll names =
      (.ok (), { j with
        loggers := j.loggers.map fun l => if l.name ∈ names then j.renew l else l }) := by
  induction names generalizing j with
  | nil =>
    have hloggers : (j.loggers.map fun l => if l.name ∈ ([] : List String) then j.renew l else l) =
        j.loggers :=
      (List.map_congr_left fun l _ => if_neg List.not_mem_nil).trans (List.map_id _)
    rw [renewAll, hloggers]
  | cons name rest ih =>
    have hloggers : ((j.loggers.map fun l => if l.name = name then j.renew l else l).map
          fun l => if l.name ∈ rest then j.renew l else l) =
        j.loggers.map fun l => if l.name ∈ name :: rest then j.renew l else l := by
      rw [List.map_map]
      refine List.map_congr_left fun l _ => ?_
      by_cases hname : l.name = name
      · -- renewed a second time, the logger stays as it is
        have hmem : l.name ∈ name :: rest := List.mem_cons.mpr (.inl hname)
        simp only [Function.comp, if_pos hname, if_pos hmem]
        split <;> rfl
      · simp only [Function.comp, List.mem_cons, hname, false_or, if_false]
    rw [renewAll_cons_of_usable h, ih (by exact h), ← hloggers]
    rfl

/-- With an unusable one the first of them loses its handlers, and nothing else happens. -/
theorem renewAll_of_not_usable {j : Journal S} (h : Template.isUsable j.template = false)
    (name : String) (rest : List String) :
    j.renewAll (name :: rest) =
      (.error .badValue, j.modify name fun l => { l with level := j.level, handlers := [] }) := by
  rw [renewAll, newHandler_of_not_usable (by exact h)]

/-- A journal in order stays so after a configuration with a usable template, which returns. -/
theorem InOrder.configure {j : Journal S} (h : InOrder j) {given : Datum} {level : Int}
    (hlevel : Level.ofDatum given = .ok level) {template stream : Option String}
    (htemplate : Template.isUsable (j.withSettings level template stream).template = true) :
    InOrder (j.configure given template stream).2 ∧
      (j.configure given template stream).2.known = j.known := by
  rw [configure_of_ok hlevel, renewAll_of_usable htemplate]
  refine ⟨⟨htemplate, h.names_map fun l => ?_, h.nodup, ?_⟩, rfl⟩
  · split <;> rfl
  · intro l hl
    obtain ⟨k, hk, rfl⟩ := List.mem_map.mp hl
    obtain ⟨-, -, hpropagates⟩ := h.setUp k hk
    rw [if_pos (h.mem_known hk)]
    exact ⟨rfl, rfl, hpropagates⟩

/-- **With an unusable template** a configuration is refused, but the settings are changed, and the
first logger has the new level and no handlers. -/
theorem InOrder.configure_of_not_usable {j : Journal S} (h : InOrder j) {given : Datum}
    {level : Int} (hlevel : Level.ofDatum given = .ok level) {template stream : Option String}
    (htemplate : Template.isUsable (j.withSettings level template stream).template = false)
    {first : Logger} {rest : List Logger} (hloggers : j.loggers = first :: rest) :
    j.configure given template stream =
      (.error .badValue, { j.withSettings level template stream with
        loggers := { first with level, handlers := [] } :: rest }) := by
  have hknown : j.known = first.name :: rest.map Logger.name := by
    rw [← h.names, hloggers]
    rfl
  -- no other logger has the name of the first
  have hother : ∀ l ∈ rest, l.name ≠ first.name := by
    intro l hl heq
    have hnodup := h.nodup
    rw [hknown, ← heq] at hnodup
    exact (List.nodup_cons.mp hnodup).1 (List.mem_map_of_mem hl)
  rw [configure_of_ok hlevel, hknown, renewAll_of_not_usable htemplate, modify]
  have hsame : (j.withSettings level template stream).loggers = first :: rest := hloggers
  rw [hsame, List.map_cons, map_modify_of_ne hother, if_pos rfl]
  rfl

/-! ## (5) Refused changes -/

/-- The journals that come of requests, configurations and changes of the level **that returned**,
and of records. -/
inductive Reached : Journal S → Prop where
  /-- Nothing was done yet. -/
  | initial : Reached initial
  /-- A logger was asked for. -/
  | request {j j' : Journal S} {given : Option String} {name : String} (hj : Reached j)
      (h : j.request given = (.ok name, j')) : Reached j'
  /-- The level was changed. -/
  | setLevel {j j' : Journal S} {given : Datum} (hj : Reached j)
      (h : j.setLevel given = (.ok (), j')) :
      Reached j'
  /-- The settings were replaced. -/
  | configure {j j' : Journal S} {given : Datum} {template stream : Option String} (hj : Reached j)
      (h : j.configure given template stream = (.ok (), j')) : Reached j'
  /-- A record was handed in. -/
  | emit {j : Journal S} (hj : Reached j) (record : Record S) : Reached (j.emit record)

/-- A record changes neither settings nor loggers. -/
theorem InOrder.emit {j : Journal S} (h : InOrder j) (record : Record S) :
    InOrder (j.emit record) ∧ (j.emit record).known = j.known := by
  unfold Journal.emit
  split
  · exact ⟨h, rfl⟩
  · exact ⟨⟨h.usable, h.names, h.nodup, h.setUp⟩, rfl⟩

/-- **Journals stay in order** as long as every change returns, and they have a logger. -/
theorem inOrder_of_reached {j : Journal S} (h : Reached j) : InOrder j ∧ j.known ≠ [] := by
  induction h with
  | initial =>
    have hempty :
        InOrder (⟨Level.warning, defaultTemplate, defaultStream, [], [], []⟩ : Journal S) :=
      ⟨isUsable_defaultTemplate, rfl, List.nodup_nil, nofun⟩
    obtain ⟨-, hstep, -⟩ := hempty.request (some stepLogger)
    obtain ⟨-, hboth, hmem⟩ := hstep.request (some iterationLogger)
    exact ⟨hboth, List.ne_nil_of_mem hmem⟩
  | @request j j' given name hj hr ih =>
    obtain ⟨-, horder, hmem⟩ := ih.1.request given
    rw [hr] at horder hmem
    exact ⟨horder, List.ne_nil_of_mem hmem⟩
  | @setLevel j j' given hj hs ih =>
    rcases hlevel : Level.ofDatum given with cause | level
    · rw [setLevel_of_error hlevel] at hs
      cases hs
    · obtain ⟨horder, hknown⟩ := ih.1.setLevel hlevel
      rw [hs] at horder hknown
      exact ⟨horder, hknown ▸ ih.2⟩
  | @configure j j' given template stream hj hc ih =>
    rcases hlevel : Level.ofDatum given with cause | level
    · rw [configure_of_error hlevel] at hc
      cases hc
    · cases htemplate : Template.isUsable (j.withSettings level template stream).template with
      | false =>
        obtain ⟨first, rest, hloggers⟩ := ih.1.exists_cons ih.2
        rw [ih.1.configure_of_not_usable hlevel htemplate hloggers] at hc
        cases hc
      | true =>
        obtain ⟨horder, hknown⟩ := ih.1.configure hlevel htemplate
        rw [hc] at horder hknown
        exact ⟨horder, hknown ▸ ih.2⟩
  | emit hj record ih =>
    obtain ⟨horder, hknown⟩ := ih.1.emit record
    rw [hknown]
    exact ⟨horder, ih.2⟩

/-- **What a refused change leaves behind**, in a journal that comes of changes that returned. A
refused change of the level leaves the journal as it was, and so does a configuration whose level is
refused. A configuration whose level is accepted is refused for its template. Then the settings are
the new ones, the first logger has the new level and has lost its handler, all other loggers are as
they were, and no logger of a new name can be set up any more. -/
theorem refused_change {j : Journal S} (h : Reached j) :
    (∀ given cause, (j.setLevel given).1 = .error cause → (j.setLevel given).2 = j) ∧
    ∀ given template stream cause, (j.configure given template stream).1 = .error cause →
      (Level.ofDatum given = .error cause ∧ (j.configure given template stream).2 = j) ∨
      ∃ level first rest, Level.ofDatum given = .ok level ∧ cause = .badValue ∧
        Template.isUsable (j.withSettings level template stream).template = false ∧
        j.loggers = first :: rest ∧ first.handlers = [j.handler] ∧
        (j.configure given template stream).2 = { j.withSettings level template stream with
          loggers := { first with level, handlers := [] } :: rest } ∧
        ∀ name, fullName name ∉ j.known →
          ((j.configure given template stream).2.request name).1 = .error .badValue := by
  obtain ⟨horder, hknown⟩ := inOrder_of_reached h
  constructor
  · intro given cause hrefused
    rcases hlevel : Level.ofDatum given with cause' | level
    · rw [setLevel_of_error hlevel]
    · rw [setLevel, hlevel] at hrefused
      cases hrefused
  · intro given template stream cause hrefused
    rcases hlevel : Level.ofDatum given with cause' | level
    · rw [configure_of_error hlevel] at hrefused ⊢
      obtain rfl := Except.error.inj hrefused
      exact .inl ⟨rfl, rfl⟩
    · obtain ⟨first, rest, hloggers⟩ := horder.exists_cons hknown
      obtain ⟨-, hhandlers, -⟩ := horder.setUp first (hloggers ▸ List.mem_cons_self)
      cases htemplate : Template.isUsable (j.withSettings level template stream).template with
      | true =>
        rw [configure_of_ok hlevel, renewAll_of_usable htemplate] at hrefused
        cases hrefused
      | false =>
        rw [horder.configure_of_not_usable hlevel htemplate hloggers] at hrefused ⊢
        have hcause : cause = .badValue := (Except.error.inj hrefused).symm
        refine .inr ⟨level, first, rest, rfl, hcause, htemplate, hloggers, hhandlers, rfl, ?_⟩
        intro name hname
        have hnames : ∀ l ∈ { first with level, handlers := [] } :: rest,
            l.name ≠ fullName name := by
          intro l hl
          rcases List.mem_cons.mp hl with rfl | hl
          · exact horder.ne_of_not_mem hname first (hloggers ▸ List.mem_cons_self)
          · exact horder.ne_of_not_mem hname l (hloggers ▸ List.mem_cons_of_mem first hl)
        rw [request_of_new (by exact hname) hnames, newHandler_of_not_usable (by exact htemplate)]

/-- A template without a field and a new level, handed to the journal at its start: the
configuration is refused, and yet the level of the settings and of the logger of steps is the new
one, and that logger has no handlers. -/
theorem configure_changes_before_refusal :
    ((initial : Journal Unit).configure (.text "DEBUG") (some "plain") none).1.toOption = none ∧
      (initial : Journal Unit).level = Level.warning ∧
      ((initial : Journal Unit).configure (.text "DEBUG") (some "plain") none).2.level =
      Level.debug ∧ ((initial : Journal Unit).find? stepLogger).map (·.handlers.length) = some 1 ∧
      (((initial : Journal Unit).configure (.text "DEBUG") (some "plain") none).2.find?
        stepLogger).map (fun l => (l.level, l.handlers)) = some (Level.debug, []) := by
  decide +kernel

/-- At the start an unknown level changes nothing; a template without a field takes the first
logger's handler away, and then no new logger can be set up. -/
theorem refused_change_at_the_start :
    ((initial : Journal Unit).setLevel (.text "LOUD")).2 = initial ∧
      ∃ first rest, (initial : Journal Unit).loggers = first :: rest ∧
        first.handlers = [(initial : Journal Unit).handler] ∧
        ((initial : Journal Unit).configure (.text "DEBUG") (some "plain") none).2.loggers =
          { first with level := Level.debug, handlers := [] } :: rest ∧
        (((initial : Journal Unit).configure (.text "DEBUG") (some "plain") none).2.request
          (some "extra")).1 = .error .badValue := by
  obtain ⟨hlevel, hconfigure⟩ := refused_change (Reached.initial : Reached (initial : Journal Unit))
  constructor
  · rcases hout : ((initial : Journal Unit).setLevel (.text "LOUD")).1 with cause | u
    · exact hlevel _ _ hout
    · have hrefused : ((initial : Journal Unit).setLevel (.text "LOUD")).1.toOption = none := by
        decide +kernel
      rw [hout] at hrefused
      cases hrefused
  · rcases hout : ((initial : Journal Unit).configure (.text "DEBUG") (some "plain") none).1 with
      cause | u
    · have hdebug : (Level.ofDatum (.text "DEBUG")).toOption = some Level.debug := by decide +kernel
      have haccepted := Action.eq_ok_of_toOption hdebug
      rcases hconfigure _ _ _ _ hout with
        ⟨hrefused, -⟩ | ⟨level, first, rest, hlevel, -, -, hloggers, hhandlers, hleft, hnew⟩
      · rw [haccepted] at hrefused
        cases hrefused
      · obtain rfl := Except.ok.inj (haccepted.symm.trans hlevel)
        exact ⟨first, rest, hloggers, hhandlers, congrArg Journal.loggers hleft,
          hnew _ (by decide +kernel)⟩
    · have hrefused : ((initial : Journal Unit).configure (.text "DEBUG") (some "plain")
          none).1.toOption = none := by
        decide +kernel
      rw [hout] at hrefused
      cases hrefused

end Journal

end NewtonRaphson
