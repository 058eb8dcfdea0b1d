import NewtonRaphson.Proofs.Journal.Writing

/-! # Several records in a row

What one record adds to a journal is known; several are handed in one after the other, and in
between others may look after the journal, as long as they write nothing.

* **`Journal.mem_known_of_reached`** — the loggers of steps and of iterations are always known, as
  long as every change of the settings returns.
* **`Journal.IsBackground R`** — what the relation `R` lets happen to a journal writes nothing.
* **`Journal.Hears R j records j'`** — the journal `j` becomes `j'` by just these records in this
  order, and by what `R` lets happen in between.
* **`Journal.Settled`** — the background that leaves the settings alone; **`Journal.Hears.written`**
  is what a journal writes before it.
* **`Journal.Prints j j' records`** — from `j` to `j'` exactly the records that reach the level of
  `j` are written and printed, in their order and each once. -/

namespace NewtonRaphson

namespace Journal

variable {S : Type}

/-! ## (1) Known loggers -/

/-- The loggers of steps and of iterations have full names. -/
theorem fullName_stepLogger : fullName (some stepLogger) = stepLogger := by decide +kernel

theorem fullName_iterationLogger : fullName (some iterationLogger) = iterationLogger := by
  decide +kernel

/-- What is known before a request is known after it. -/
theorem InOrder.mem_known_request {j : Journal S} (h : InOrder j) {name : String}
    (hname : name ∈ j.known) (given : Option String) : name ∈ (j.request given).2.known := by
  obtain ⟨-, added, hadded, -⟩ := h.follow (d := .request given) True.intro
  have hknown : (j.request given).2.known = j.known ++ added := hadded
  rw [hknown]
  exact List.mem_append_left added hname

/-- Another level makes no logger known. -/
theorem known_setLevel (j : Journal S) (given : Datum) : (j.setLevel given).2.known = j.known := by
  unfold setLevel
  split <;> rfl

/-- Loggers that are renewed are known as before. -/
theorem known_renewAll (j : Journal S) (names : List String) :
    (j.renewAll names).2.known = j.known := by
  induction names generalizing j with
  | nil => rfl
  | cons name rest ih =>
    unfold renewAll
    dsimp only
    split
    · rfl
    · exact ih _

/-- Other settings make no logger known. -/
theorem known_configure (j : Journal S) (given : Datum) (template stream : Option String) :
    (j.configure given template stream).2.known = j.known := by
  unfold configure
  split
  · rfl
  · exact known_renewAll _ _

/-- **The loggers of steps and of iterations are known** as long as every change returns. -/
theorem mem_known_of_reached {j : Journal S} (h : Reached j) :
    stepLogger ∈ j.known ∧ iterationLogger ∈ j.known := by
  induction h with
  | initial =>
    obtain ⟨-, hstep, hmem⟩ := inOrder_empty.request (S := S) (some stepLogger)
    rw [fullName_stepLogger] at hmem
    have hboth := (hstep.request (some iterationLogger)).2.2
    rw [fullName_iterationLogger] at hboth
    exact ⟨hstep.mem_known_request hmem _, hboth⟩
  | @request j j' given name hj hr ih =>
    have horder := (inOrder_of_reached hj).1
    have hstep := horder.mem_known_request ih.1 given
    have hiteration := horder.mem_known_request ih.2 given
    rw [hr] at hstep hiteration
    exact ⟨hstep, hiteration⟩
  | @setLevel j j' given hj hs ih =>
    have hknown := known_setLevel j given
    rw [hs] at hknown
    rwa [hknown]
  | @configure j j' given template stream hj hc ih =>
    have hknown := known_configure j given template stream
    rw [hc] at hknown
    rwa [hknown]
  | emit hj record ih => rwa [((inOrder_of_reached hj).1.emit record).2]

/-! ## (2) Records in a row -/

/-- A **background**: what it relates a journal to may come of the journal without a word being
written. -/
structure IsBackground (R : Journal S → Journal S → Prop) : Prop where
  /-- Nothing may happen. -/
  refl : ∀ j, R j j
  /-- One thing may happen after the other. -/
  trans : ∀ {j k l}, R j k → R k l → R j l
  /-- Nothing is written. -/
  written_eq : ∀ {j k}, R j k → k.written = j.written

/-- A journal **hears** records: they are handed in in this order, each once, and all else that
happens to the journal happens in the background. -/
inductive Hears (R : Journal S → Journal S → Prop) :
    Journal S → List (Record S) → Journal S → Prop where
  /-- Something happens in the background. -/
  | background {j j' : Journal S} (h : R j j') : Hears R j [] j'
  /-- A record is handed in. -/
  | record (j : Journal S) (record : Record S) : Hears R j [record] (j.emit record)
  /-- First one thing happens, then another. -/
  | append {j k l : Journal S} {first second : List (Record S)} (h₁ : Hears R j first k)
      (h₂ : Hears R k second l) : Hears R j (first ++ second) l

/-- A background before records adds none. -/
theorem Hears.after_background {R : Journal S → Journal S → Prop} {j k l : Journal S}
    {records : List (Record S)} (h : R j k) (hrecords : Hears R k records l) :
    Hears R j records l :=
  (Hears.background h).append hrecords

/-- A background after records adds none. -/
theorem Hears.before_background {R : Journal S → Journal S → Prop} {j k l : Journal S}
    {records : List (Record S)} (hrecords : Hears R j records k) (h : R k l) :
    Hears R j records l := by
  have happended := hrecords.append (Hears.background h)
  rwa [List.append_nil] at happended

/-- The background in which nothing happens. -/
theorem isBackground_eq : IsBackground (S := S) Eq :=
  ⟨fun _ => rfl, Eq.trans, fun h => h ▸ rfl⟩

/-- The background that also leaves the **settings** alone: they stay the same, loggers stay known,
and a journal in order stays so. -/
structure Settled (j j' : Journal S) : Prop where
  written_eq : j'.written = j.written
  handler_eq : j'.handler = j.handler
  known : ∀ name ∈ j.known, name ∈ j'.known
  inOrder : InOrder j → InOrder j'

theorem isBackground_settled : IsBackground (S := S) Settled where
  refl _ := ⟨rfl, rfl, fun _ h => h, id⟩
  trans h h' := ⟨h'.written_eq.trans h.written_eq, h'.handler_eq.trans h.handler_eq,
    fun name hname => h'.known name (h.known name hname),
    fun horder => h'.inOrder (h.inOrder horder)⟩
  written_eq h := h.written_eq

/-! ## (3) What is written -/

/-- A record that a logger of steps or of iterations is handed, with a level of its own. -/
def IsReport (record : Record S) : Prop :=
  (record.logger = stepLogger ∨ record.logger = iterationLogger) ∧ 1 ≤ record.level

/-- The entry that a journal makes of a record. -/
def entry (j : Journal S) (record : Record S) : Entry S := ⟨j.stream, j.template, record⟩

/-- Journals with the same settings make the same entries. -/
theorem entry_eq_of_handler {j k : Journal S} (h : k.handler = j.handler) : k.entry = j.entry := by
  obtain ⟨-, htemplate, hstream⟩ := Handler.mk.inj h
  funext record
  rw [entry, entry, htemplate, hstream]

/-- A record changes no setting. -/
theorem handler_emit (j : Journal S) (record : Record S) : (j.emit record).handler = j.handler := by
  unfold emit
  split <;> rfl

/-- A level of at least one is its own threshold. -/
theorem threshold_of_pos {level : Int} (h : 1 ≤ level) : threshold level = level := by
  rw [threshold, if_neg (by omega)]

/-- **What a journal in order writes** of the records it hears before a settled background: an entry
for each that reaches its level, in their order. It stays in order, with the same settings. -/
theorem Hears.written {R : Journal S → Journal S → Prop} (hR : ∀ {j k}, R j k → Settled j k)
    {j j' : Journal S} {records : List (Record S)} (h : Hears R j records j') (horder : InOrder j)
    (hlevel : 1 ≤ j.level) (hstep : stepLogger ∈ j.known) (hiteration : iterationLogger ∈ j.known)
    (hreports : ∀ record ∈ records, IsReport record) :
    j'.written = j.written ++ (records.filter (j.level ≤ ·.level)).map j.entry ∧
      InOrder j' ∧ j'.handler = j.handler ∧ stepLogger ∈ j'.known ∧ iterationLogger ∈ j'.known := by
  induction h with
  | background hbackground =>
    have hsettled := hR hbackground
    refine ⟨?_, hsettled.inOrder horder, hsettled.handler_eq, hsettled.known _ hstep,
      hsettled.known _ hiteration⟩
    rw [hsettled.written_eq, List.filter_nil, List.map_nil, List.append_nil]
  | record j record =>
    obtain ⟨hlogger, hpositive⟩ := hreports record (List.mem_singleton_self _)
    have hname : record.logger ∈ j.known := by
      rcases hlogger with hlogger | hlogger <;> rwa [hlogger]
    obtain ⟨hnext, hknown⟩ := horder.emit record
    refine ⟨?_, hnext, handler_emit j record, hknown ▸ hstep, hknown ▸ hiteration⟩
    rw [horder.written_emit hname hpositive, threshold_of_pos hlevel]
    by_cases hreached : j.level ≤ record.level
    · simp [hreached, entry]
    · simp [hreached]
  | append h₁ h₂ ih₁ ih₂ =>
    obtain ⟨hwritten₁, horder₁, hhandler₁, hstep₁, hiteration₁⟩ :=
      ih₁ horder hlevel hstep hiteration
      fun record hrecord => hreports record (List.mem_append_left _ hrecord)
    -- the second part begins with the settings of the first
    obtain ⟨hlevel₁, -, -⟩ := Handler.mk.inj hhandler₁
    obtain ⟨hwritten₂, horder₂, hhandler₂, hstep₂, hiteration₂⟩ :=
      ih₂ horder₁ (hlevel₁ ▸ hlevel) hstep₁
      hiteration₁ fun record hrecord => hreports record (List.mem_append_right _ hrecord)
    refine ⟨?_, horder₂, hhandler₂.trans hhandler₁, hstep₂, hiteration₂⟩
    rw [hwritten₂, hwritten₁, entry_eq_of_handler hhandler₁, hlevel₁, List.filter_append,
      List.map_append, List.append_assoc]

/-! ## (4) What is printed -/

/-- From the journal `j` to the journal `j'` some records are **printed**: those that reach the
level of `j` are written, in their order and each once, and the text is that of their lines if the
template of `j` fits all of them under their circumstances. -/
structure Prints (j j' : Journal Float) (records : List (Record Float)) : Prop where
  /-- The records that reach the level are written. -/
  written : j'.written = j.written ++ (records.filter (j.level ≤ ·.level)).map j.entry
  /-- Their lines are printed. -/
  printed : ∀ (circumstances : Nat → Circumstances) (style : NumberStyle) (lines : List String),
    ((records.filter (j.level ≤ ·.level)).mapIdx fun k record =>
        record.line? style (circumstances k) j.template) = lines.map some →
    Entry.textsUnder circumstances style (j'.written.drop j.written.length) =
      onStream j.stream (lines.map (· ++ "\n"))

/-- **A journal prints what it hears** before a settled background, if every change of its settings
returned and its level is at least one. -/
theorem Hears.prints {R : Journal Float → Journal Float → Prop} (hR : ∀ {j k}, R j k → Settled j k)
    {j j' : Journal Float} {records : List (Record Float)} (h : Hears R j records j')
    (hreached : Reached j) (hlevel : 1 ≤ j.level) (hreports : ∀ record ∈ records, IsReport record) :
    Prints j j' records := by
  obtain ⟨hstep, hiteration⟩ := mem_known_of_reached hreached
  obtain ⟨hwritten, -⟩ :=
    h.written hR (inOrder_of_reached hreached).1 hlevel hstep hiteration hreports
  refine ⟨hwritten, fun circumstances style lines hlines => ?_⟩
  rw [hwritten, List.drop_left]
  refine textsUnder_of_stream (fun e he => ?_) ((List.ext_getElem? fun k => ?_).trans hlines)
  · obtain ⟨record, -, rfl⟩ := List.mem_map.mp he
    rfl
  · rw [List.getElem?_mapIdx, List.getElem?_map, Option.map_map, List.getElem?_mapIdx]
    rfl

end Journal

end NewtonRaphson
