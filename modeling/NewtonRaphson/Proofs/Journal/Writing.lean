import NewtonRaphson.Journal.Printer
import NewtonRaphson.Proofs.Journal.Directives

/-! # What loggers write

Whether a record is written is decided twice, by the level of its logger and by the level of the
handler, and the level of a logger may be that of an ancestor. In a journal in order one number
decides, and it is the same for all loggers.

* **`Journal.threshold`** — the number that a level stands for: level zero leaves the decision to
  the root of all loggers.
* **`Journal.InOrder.entriesFor_eq`** — what a logger of a journal in order writes of a record.
* **`Journal.InOrder.after_of_returns`** — after directives that all returned, the settings are the
  level, the template and the stream that were set last.
* **`Journal.textsUnder_of_stream`** — entries on one stream print their lines there, whatever these
  show of the circumstances.
* **`Journal.written_after`** — so these decide what is written, and where.
* **`Journal.setLevel_zero_writes_less`** — a level of zero is not the lowest one. -/

namespace NewtonRaphson

namespace Journal

variable {S : Type}

/-! ## (1) The level that decides -/

/-- The **threshold** of a level: records from there on are written. Loggers of level zero follow
the root of all loggers. -/
def threshold (level : Int) : Int := if level = 0 then Level.warning else level

/-- A logger of a level other than zero decides by this level. -/
theorem effectiveLevel_of_ne_zero (j : Journal S) {l : Logger} (h : l.level ≠ 0) :
    j.effectiveLevel l = l.level := by
  unfold effectiveLevel
  dsimp only
  rw [List.find?_cons_of_pos (p := fun level : Int => level != 0) (bne_iff_ne.mpr h),
    Option.getD_some]

/-- Where no logger has a level the root decides. -/
theorem effectiveLevel_of_eq_zero {j : Journal S} (h : ∀ k ∈ j.loggers, k.level = 0) {l : Logger}
    (hl : l.level = 0) : j.effectiveLevel l = Level.warning := by
  have hnone :
      (l.level :: (ancestors l.name).map fun name => ((j.find? name).map (·.level)).getD 0).find?
      (· != 0) = none := by
    refine List.find?_eq_none.mpr fun level hlevel => ?_
    have hzero : level = 0 := by
      rcases List.mem_cons.mp hlevel with rfl | hlevel
      · exact hl
      · obtain ⟨name, -, rfl⟩ := List.mem_map.mp hlevel
        rcases hfind : j.find? name with - | k
        · rfl
        · exact h k (List.mem_of_find?_eq_some hfind)
    rw [hzero]
    decide
  rw [effectiveLevel, hnone, Option.getD_none]

namespace InOrder

variable {j : Journal S}

/-- The logger of a known name is as the settings say. -/
theorem find?_eq (h : InOrder j) {name : String} (hname : name ∈ j.known) :
    j.find? name = some (j.standardLogger name) := by
  rcases hfind : j.find? name with - | l
  · have hmem : j.standardLogger name ∈ j.loggers := h.loggers_eq ▸ List.mem_map_of_mem hname
    exact absurd (beq_self_eq_true name) (List.find?_eq_none.mp hfind _ hmem)
  · have hmem : l ∈ j.known.map j.standardLogger := h.loggers_eq ▸ List.mem_of_find?_eq_some hfind
    obtain ⟨name', -, rfl⟩ := List.mem_map.mp hmem
    have hsame := List.find?_some (p := fun l : Logger => l.name == name) hfind
    obtain rfl : name' = name := beq_iff_eq.mp hsame
    rfl

/-- All loggers of a journal in order decide by the threshold of its level. -/
theorem effectiveLevel_eq (h : InOrder j) (name : String) :
    j.effectiveLevel (j.standardLogger name) = threshold j.level := by
  unfold threshold
  split
  · rename_i hzero
    exact effectiveLevel_of_eq_zero (fun k hk => (h.setUp k hk).1.trans hzero) hzero
  · rename_i hne
    exact effectiveLevel_of_ne_zero j hne

/-- **What a logger of a journal in order writes** of a record: one entry if the record reaches the
threshold, and none otherwise. -/
theorem entriesFor_eq (h : InOrder j) (name : String) {record : Record S}
    (hlevel : 1 ≤ record.level) :
    j.entriesFor (j.standardLogger name) record =
      if threshold j.level ≤ record.level then [⟨j.stream, j.template, record⟩] else [] := by
  have hpositive : 0 < record.level := hlevel
  rw [entriesFor, h.effectiveLevel_eq]
  by_cases hreached : threshold j.level ≤ record.level
  · -- the handler has the level of the settings, which is below the threshold or equal to it
    have hhandler : j.level ≤ record.level := by
      unfold threshold at hreached
      split at hreached
      · omega
      · exact hreached
    have hfilter : (j.standardLogger name).handlers.filter (·.level ≤ record.level) = [j.handler] :=
      List.filter_cons_of_pos (decide_eq_true hhandler)
    rw [if_pos ⟨hpositive, hreached⟩, if_pos hreached, hfilter]
    rfl
  · rw [if_neg fun hboth => hreached hboth.2, if_neg hreached]

/-- So a record adds this entry to what was written. -/
theorem written_emit (h : InOrder j) {record : Record S} (hname : record.logger ∈ j.known)
    (hlevel : 1 ≤ record.level) :
    (j.emit record).written =
      j.written ++ if threshold j.level ≤ record.level then
      [⟨j.stream, j.template, record⟩] else [] := by
  rw [Journal.emit, h.find?_eq hname]
  exact congrArg (j.written ++ ·) (h.entriesFor_eq record.logger hlevel)

end InOrder

/-! ## (2) Settings that were set last -/

namespace Directive

/-- The level that a directive sets. -/
def level? : Directive → Option Int
  | request _ => none
  | setLevel level | configure level _ _ => (Level.ofDatum level).toOption

/-- The template that a directive sets: the default if it gives none, or an empty one. -/
def template? : Directive → Option String
  | configure _ template _ => some (match template with
    | none | some "" => defaultTemplate
    | some t => t)
  | _ => none

/-- The stream that a directive sets: the default if it gives none. -/
def stream? : Directive → Option String
  | configure _ _ stream => some (stream.getD defaultStream)
  | _ => none

/-- A directive whose settings are usable gives a usable template. -/
theorem hasUsableTemplate_of_withSettings {j : Journal S} {given : Datum} {level : Int}
    {template stream : Option String}
    (h : Template.isUsable (j.withSettings level template stream).template = true) :
    (configure given template stream).HasUsableTemplate := by
  unfold withSettings at h
  dsimp only at h
  split at h
  · exact True.intro
  · exact .inl rfl
  · exact .inr h

end Directive

/-- The level that the directives set last; at the start it is that of warnings. -/
def lastLevel (ds : List Directive) : Int := (ds.filterMap Directive.level?).getLastD Level.warning

/-- The template that they set last. -/
def lastTemplate (ds : List Directive) : String :=
  (ds.filterMap Directive.template?).getLastD defaultTemplate

/-- The stream that they set last. -/
def lastStream (ds : List Directive) : String :=
  (ds.filterMap Directive.stream?).getLastD defaultStream

/-- Directives that **all return**, one after the other. -/
def Returns (j : Journal S) : List Directive → Prop
  | [] => True
  | d :: ds => (d.follow j).1 = .ok () ∧ Returns (d.follow j).2 ds

/-- The last of the values that a first directive and further ones set. -/
theorem getLastD_filterMap_cons {α : Type} (f : Directive → Option α) (d : Directive)
    (ds : List Directive) (old : α) :
    ((d :: ds).filterMap f).getLastD old = (ds.filterMap f).getLastD ((f d).getD old) := by
  rcases hvalue : f d with - | value
  · rw [List.filterMap_cons_none hvalue, Option.getD_none]
  · rw [List.filterMap_cons_some hvalue, List.getLastD_cons, Option.getD_some]

namespace InOrder

variable {j : Journal S}

/-- **What a directive does that returns**, in a journal in order that has a logger: its template
was usable, and the settings are those that it sets, or the old ones. -/
theorem follow_of_returns (h : InOrder j) (hknown : j.known ≠ []) {d : Directive}
    (hreturns : (d.follow j).1 = .ok ()) :
    d.HasUsableTemplate ∧
      (d.follow j).2.handler = ⟨d.level?.getD j.level, d.template?.getD j.template,
        d.stream?.getD j.stream⟩ := by
  cases d with
  | request given => exact ⟨True.intro, (h.settings_request given).1⟩
  | setLevel given =>
    refine ⟨True.intro, ?_⟩
    rcases hlevel : Level.ofDatum given with cause | level
    · rw [Directive.follow, setLevel_of_error hlevel] at hreturns
      cases hreturns
    · simp only [Directive.follow, Directive.level?, Journal.setLevel, hlevel]
      rfl
  | configure given template stream =>
    rcases hlevel : Level.ofDatum given with cause | level
    · rw [Directive.follow, configure_of_error hlevel] at hreturns
      cases hreturns
    · rcases husable : Template.isUsable (j.withSettings level template stream).template with - | -
      · -- an unusable template would have been refused at the first logger
        obtain ⟨first, rest, hloggers⟩ := h.exists_cons hknown
        rw [Directive.follow, h.configure_of_not_usable hlevel husable hloggers] at hreturns
        cases hreturns
      · refine ⟨Directive.hasUsableTemplate_of_withSettings husable, ?_⟩
        simp only [Directive.follow, configure_of_ok hlevel, renewAll_of_usable husable,
          Directive.level?, hlevel]
        rfl

/-- **After directives that all returned** the journal is in order, and its settings are those that
were set last. -/
theorem after_of_returns (h : InOrder j) (hknown : j.known ≠ []) {ds : List Directive}
    (hreturns : Returns j ds) :
    (∀ d ∈ ds, d.HasUsableTemplate) ∧
      (j.after ds).handler =
        ⟨(ds.filterMap Directive.level?).getLastD j.level,
          (ds.filterMap Directive.template?).getLastD j.template,
          (ds.filterMap Directive.stream?).getLastD j.stream⟩ := by
  induction ds generalizing j with
  | nil => exact ⟨nofun, rfl⟩
  | cons d ds ih =>
    obtain ⟨hfirst, hrest⟩ := hreturns
    obtain ⟨husable, hhandler⟩ := h.follow_of_returns hknown hfirst
    obtain ⟨hnext, added, hadded, -⟩ := h.follow husable
    have hstill : (d.follow j).2.known ≠ [] := by
      rw [hadded]
      exact List.append_ne_nil_of_left_ne_nil hknown added
    obtain ⟨husables, hlast⟩ := ih hnext hstill hrest
    refine ⟨List.forall_mem_cons.mpr ⟨husable, husables⟩, ?_⟩
    obtain ⟨hlevel, htemplate, hstream⟩ := Handler.mk.inj hhandler
    rw [after_cons, hlast, hlevel, htemplate, hstream]
    simp only [getLastD_filterMap_cons]

end InOrder

/-! ## (3) What is written -/

/-- Lines on one stream as texts of streams: nothing if there are none. -/
def onStream (stream : String) (lines : List String) : List (String × String) :=
  if lines = [] then [] else [(stream, String.join lines)]

/-- **Entries on one stream** whose templates fit them print their lines there, one after the
other. -/
theorem textsUnder_of_stream {circumstances : Nat → Circumstances} {style : NumberStyle}
    {entries : List (Entry Float)} {stream : String} (hstream : ∀ e ∈ entries, e.stream = stream)
    {lines : List String}
    (hlines : (entries.mapIdx fun k e => e.record.line? style (circumstances k) e.template) =
      lines.map some) :
    Entry.textsUnder circumstances style entries = onStream stream (lines.map (· ++ "\n")) := by
  have hstreams : (entries.map (·.stream)).eraseDups = if entries = [] then [] else [stream] := by
    cases entries with
    | nil => rfl
    | cons e rest =>
      obtain ⟨rfl, hrest⟩ := List.forall_mem_cons.mp hstream
      have hothers : (rest.map (·.stream)).filter (fun other => !other == e.stream) = [] := by
        refine List.filter_eq_nil_iff.mpr fun other hother => ?_
        obtain ⟨e', he', rfl⟩ := List.mem_map.mp hother
        simp [hrest e' he']
      rw [List.map_cons, List.eraseDups_cons, hothers]
      rfl
  have hown : entries.zipIdx.filter (·.1.stream == stream) = entries.zipIdx :=
    List.filter_eq_self.mpr fun e he => beq_iff_eq.mpr (hstream e.1 (List.fst_mem_of_mem_zipIdx he))
  have hprinted : (entries.zipIdx.map fun e => e.1.line style (circumstances e.2)) =
      lines.map (· ++ "\n") := by
    have hline := congrArg (List.map fun line? : Option String => line?.elim "" (· ++ "\n")) hlines
    rw [List.mapIdx_eq_zipIdx_map, List.map_map, List.map_map] at hline
    exact hline
  unfold Entry.textsUnder
  dsimp only
  rw [hstreams]
  cases entries with
  | nil =>
    obtain rfl : lines = [] := List.map_eq_nil_iff.mp hlines.symm
    rfl
  | cons e rest =>
    obtain ⟨line, lines, rfl⟩ : ∃ line rest', lines = line :: rest' := by
      refine List.exists_cons_of_ne_nil fun hnil => List.cons_ne_nil e rest ?_
      exact List.mapIdx_eq_nil_iff.mp (hlines.trans (congrArg (List.map some) hnil))
    have hnonempty : (!(String.join ((line :: lines).map (· ++ "\n"))).isEmpty) = true := by
      simp [String.join_cons]
    rw [if_neg (List.cons_ne_nil e rest), List.map_singleton, hown, hprinted,
      List.filter_cons_of_pos (by exact hnonempty), List.filter_nil, onStream, if_neg (by simp)]

/-- Every logger that directives asked for is known after them. -/
theorem InOrder.mem_known_after {j : Journal S} (h : InOrder j) {ds : List Directive}
    (hds : ∀ d ∈ ds, d.HasUsableTemplate) {given : Option String} (hgiven : .request given ∈ ds) :
    fullName given ∈ (j.after ds).known := by
  induction ds generalizing j with
  | nil => cases hgiven
  | cons d ds ih =>
    obtain ⟨hd, hrest⟩ := List.forall_mem_cons.mp hds
    have hnext := (h.follow hd).1
    rcases List.mem_cons.mp hgiven with rfl | hgiven
    · obtain ⟨-, added, hadded, -⟩ := hnext.after hrest
      rw [after_cons, hadded]
      exact List.mem_append_left added (h.request given).2.2
    · exact ih hnext hrest hgiven

/-- At the start the settings are the defaults. -/
theorem handler_initial :
    (initial : Journal S).handler = ⟨Level.warning, defaultTemplate, defaultStream⟩ := by
  obtain ⟨-, hstep, -⟩ := inOrder_empty.request (some stepLogger)
  exact (hstep.settings_request (some iterationLogger)).1.trans
    (inOrder_empty.settings_request (some stepLogger)).1

/-- **The level that was set last decides what is written**, by its threshold: after directives that
all returned, a record of a logger that was asked for adds one entry if it reaches the threshold,
and nothing otherwise. The entry is for the stream that was set last. If the template that was set
last gives the record a line, whatever it shows of the circumstances, then this line is all the text
of the entry. -/
theorem written_after {ds : List Directive} (hreturns : Returns (initial : Journal Float) ds) :
    (∀ given, .request given ∈ ds → fullName given ∈ ((initial : Journal Float).after ds).known) ∧
    ∀ record : Record Float, record.logger ∈ ((initial : Journal Float).after ds).known →
      1 ≤ record.level →
      (threshold (lastLevel ds) ≤ record.level →
        (((initial : Journal Float).after ds).emit record).written =
            ((initial : Journal Float).after ds).written ++
              [⟨lastStream ds, lastTemplate ds, record⟩] ∧
          ∀ (c : Circumstances) (style : NumberStyle) (line : String),
            record.line? style c (lastTemplate ds) = some line →
            Entry.textsUnder (fun _ => c) style [⟨lastStream ds, lastTemplate ds, record⟩] =
              [(lastStream ds, line ++ "\n")]) ∧
      (record.level < threshold (lastLevel ds) →
        (((initial : Journal Float).after ds).emit record).written =
          ((initial : Journal Float).after ds).written) := by
  obtain ⟨horder, hknown⟩ :=
    inOrder_of_reached (Reached.initial : Reached (initial : Journal Float))
  obtain ⟨husable, hhandler⟩ := horder.after_of_returns hknown hreturns
  obtain ⟨hlevel, htemplate, hstream⟩ := Handler.mk.inj hhandler
  obtain ⟨hlevel₀, htemplate₀, hstream₀⟩ := Handler.mk.inj (handler_initial (S := Float))
  refine ⟨fun given => horder.mem_known_after husable, fun record hname hpositive => ?_⟩
  have hwritten := (horder.after husable).1.written_emit hname hpositive
  rw [hlevel, htemplate, hstream, hlevel₀, htemplate₀, hstream₀] at hwritten
  refine ⟨fun hreached => ⟨?_, fun c style line hline => ?_⟩, fun hbelow => ?_⟩
  · rw [hwritten]
    exact congrArg (_ ++ ·) (if_pos hreached)
  · have hprinted : Entry.textsUnder (fun _ => c) style [⟨lastStream ds, lastTemplate ds, record⟩] =
        onStream (lastStream ds) ([line].map (· ++ "\n")) :=
      textsUnder_of_stream (List.forall_mem_singleton.mpr rfl)
        (congrArg (fun line? => [line?]) hline)
    exact hprinted
  · rw [hwritten]
    exact (congrArg (_ ++ ·) (if_neg (Int.not_le.mpr hbelow))).trans (List.append_nil _)

/-- A logger that is asked for, settings with the time in the template, and another level. -/
def quietLog : List Directive :=
  [.request (some "extra"),
    .configure (.text "debug") (some "%(asctime)s %(message)s") (some "log"),
    .setLevel (.text "Info")]

/-- Circumstances that give the time of a record. -/
def atNoon : Circumstances :=
  ⟨fun name => if name = "asctime" then some (.text "12:00:00") else none, none⟩

/-- After these the new logger writes a record of level twenty as a line of the log, and none of
level ten. -/
theorem written_after_quietLog :
    Entry.textsUnder (fun _ => atNoon) .plain
        [⟨"log", "%(asctime)s %(message)s", ⟨"newtonstep.extra", Level.info, .text "here"⟩⟩] =
        [("log", "12:00:00 here\n")] ∧
      (((initial : Journal Float).after quietLog).emit
          ⟨"newtonstep.extra", Level.info, .text "here"⟩).written =
        ((initial : Journal Float).after quietLog).written ++
          [⟨"log", "%(asctime)s %(message)s", ⟨"newtonstep.extra", Level.info, .text "here"⟩⟩] ∧
      (((initial : Journal Float).after quietLog).emit
          ⟨"newtonstep.extra", Level.debug, .text "here"⟩).written =
        ((initial : Journal Float).after quietLog).written := by
  have hreturns : Returns (initial : Journal Float) quietLog :=
    ⟨Action.eq_ok_of_toOption (by decide +kernel), Action.eq_ok_of_toOption (by decide +kernel),
      Action.eq_ok_of_toOption (by decide +kernel), True.intro⟩
  obtain ⟨hrequested, hrecords⟩ := written_after hreturns
  have hknown := hrequested (some "extra") List.mem_cons_self
  have hfull : fullName (some "extra") = "newtonstep.extra" := by decide +kernel
  have hlevel : lastLevel quietLog = Level.info := by decide +kernel
  have htemplate : lastTemplate quietLog = "%(asctime)s %(message)s" := by decide +kernel
  have hstream : lastStream quietLog = "log" := by decide +kernel
  rw [hfull] at hknown
  rw [hlevel, htemplate, hstream] at hrecords
  obtain ⟨hwritten, hprinted⟩ :=
    (hrecords ⟨"newtonstep.extra", Level.info, .text "here"⟩ hknown (by decide)).1 (by decide)
  have hbelow :=
    (hrecords ⟨"newtonstep.extra", Level.debug, .text "here"⟩ hknown (by decide)).2 (by decide)
  exact ⟨hprinted atNoon .plain "12:00:00 here" (by decide +kernel), hwritten, hbelow⟩

/-- **A level of zero is not the lowest one**: the loggers then follow the root of all loggers, and
a record of level ten, which the template fits, is not written. -/
theorem setLevel_zero_writes_less :
    Returns (initial : Journal Float) [.setLevel (.int 0)] ∧ lastLevel [.setLevel (.int 0)] = 0 ∧
      stepLogger ∈ ((initial : Journal Float).after [.setLevel (.int 0)]).known ∧
      1 ≤ Level.debug ∧ 0 ≤ Level.debug ∧
      (⟨stepLogger, Level.debug, .text "here"⟩ : Record Float).line? .plain .unknown
        (lastTemplate [.setLevel (.int 0)]) = some "[DEBUG] newtonstep.optimize.newton: here" ∧
      ((initial : Journal Float).after [.setLevel (.int 0)]).written.length = 0 ∧
      (((initial : Journal Float).after [.setLevel (.int 0)]).emit
        ⟨stepLogger, Level.debug, .text "here"⟩).written.length = 0 := by
  refine ⟨⟨Action.eq_ok_of_toOption (by decide +kernel), True.intro⟩, ?_⟩
  decide +kernel

end Journal

end NewtonRaphson
