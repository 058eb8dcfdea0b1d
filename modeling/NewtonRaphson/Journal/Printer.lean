import NewtonRaphson.Journal

/-! # The text of the journal

Entries as lines. The numbers of a point are written in a style that the reader chooses; the length
of a step always has three places. -/

namespace NewtonRaphson

/-- How a reader wants computed numbers to be written. -/
inductive NumberStyle where
  /-- With the fewest digits that read back. -/
  | plain
  /-- With a number of significant digits, anything below a threshold as a bare zero. -/
  | significant (digits : Nat) (threshold : Float)

/-- A number in a style. -/
def NumberStyle.write : NumberStyle → Float → String
  | plain, x => Numeral.plain x
  | significant digits threshold, x =>
    if x.isFinite && (x == 0.0 || x.abs < threshold) then "0"
    else Numeral.scientific (digits - 1) x

/-- The coordinates of a point in a style. -/
def NumberStyle.writePoint (style : NumberStyle) (point : List Float) : String :=
  "[" ++ " ".intercalate (point.map style.write) ++ "]"

/-- The text of a message. -/
def Message.render (style : NumberStyle) : Message Float → String
  | .text s => s
  | .nonFiniteDerivative x => s!"Non-finite gradient or Hessian at {style.writePoint x}"
  | .singularHessian cause =>
    s!"Singular Hessian, point left unchanged: " ++ cause.message?.getD ""
  | .overflow => "Newton update overflowed, point left unchanged"
  | .step length x =>
    s!"Newton step |dx|={Numeral.scientific 3 length} -> x={style.writePoint x}"
  | .stopped steps reason =>
    s!"Newton iteration stopped after {steps} step(s): {reason.message}"

/-- The **circumstances** of a record: what is known besides the record when it is made, such as the
time, the thread, and the place in the program. -/
structure Circumstances where
  /-- The further values that a template can show, by their names. -/
  value : String → Option Template.Value
  /-- The text that shows all values at once, if there is one. -/
  summary : Option String

/-- Circumstances of which nothing is known. -/
def Circumstances.unknown : Circumstances := ⟨fun _ => none, none⟩

namespace Record

variable (style : NumberStyle) (c : Circumstances) (r : Record Float)

/-- The values that a template can show of a record: four are its own, all others are given by the
circumstances. -/
def value : String → Option Template.Value
  | "levelname" => some (.text (Level.name r.level))
  | "levelno" => some (.number r.level)
  | "name" => some (.text r.logger)
  | "message" => some (.text (r.message.render style))
  | name => c.value name

/-- The line of a record by a template; none if the template does not fit the record. -/
def line? (template : String) : Option String :=
  Template.fill (r.value style c) (c.summary.map .other) template.toList

end Record

namespace Entry

/-- The line of an entry with its end; nothing if the template does not fit the record. -/
def line (style : NumberStyle) (c : Circumstances) (e : Entry Float) : String :=
  (e.record.line? style c e.template).elim "" (· ++ "\n")

/-- The text that entries add to each stream, in the order in which the streams are first written.
The circumstances of each entry are given by its place. -/
def textsUnder (circumstances : Nat → Circumstances) (style : NumberStyle)
    (entries : List (Entry Float)) : List (String × String) :=
  let streams := (entries.map (·.stream)).eraseDups
  let texts := streams.map fun s =>
    let own := entries.zipIdx.filter (·.1.stream == s)
    (s, String.join (own.map fun e => e.1.line style (circumstances e.2)))
  texts.filter (!·.2.isEmpty)

/-- The text that entries add to each stream where nothing is known of their circumstances. -/
def texts : NumberStyle → List (Entry Float) → List (String × String) :=
  textsUnder fun _ => .unknown

end Entry

end NewtonRaphson
