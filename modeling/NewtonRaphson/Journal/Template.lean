import NewtonRaphson.Decimal
import NewtonRaphson.Text.Digit
import NewtonRaphson.Text.Quoted
import NewtonRaphson.Text.Word

/-! # Line templates

How a record becomes a line: a text with fields such as `%(message)s`, each with a name, flags, a
width, a number of places and a conversion. A template is usable if it has at least one regular
field; a usable template may still fail for a record, and then writes no line. -/

namespace NewtonRaphson

namespace Template

/-- The value of a field. -/
inductive Value where
  /-- A text. -/
  | text (s : String)
  /-- An integer. -/
  | number (n : Int)
  /-- A double. -/
  | real (x : Float)
  /-- Any other value, by the text that shows it. -/
  | other (shown : String)

/-- A value as it is written. -/
def Value.shown : Value → String
  | text s => s
  | number n => toString n
  | real x => Numeral.plain x
  | other s => s

/-- A value as messages show it: a text stands in quotes. -/
def Value.described : Value → String
  | text s => quoted s
  | v => v.shown

/-- A **field** of a template. -/
structure Field where
  /-- The name of the value it shows, if it has one. -/
  name : Option String
  /-- The flags between name and width. -/
  flags : List Char
  /-- The least number of characters. -/
  width : Nat
  /-- The number of places, or of characters of a text. -/
  places : Option Nat
  /-- Whether it fits some value: width and places are not left to a further value, which a template
  cannot give, and they are written in ASCII digits. -/
  isFillable : Bool
  /-- Whether it makes a template usable: it has a name, no size letter, and no point without a
  number of places. -/
  isRegular : Bool
  /-- The letter that says how the value is written. -/
  conversion : Char

/-- The digits a text begins with as a number, if there are any, whether they are all ASCII, and
what follows. -/
def readNumber (cs : List Char) : Option Nat × Bool × List Char :=
  let digits := cs.takeWhile isDecimalDigit
  (if digits.isEmpty then none
    else some (digits.foldl (fun n c => 10 * n + (digitValue? c).getD 0) 0),
    digits.all Char.isDigit, cs.dropWhile isDecimalDigit)

/-- A number or a star: the number, whether something stands there, whether it can be filled, and
what follows. -/
def readCount : List Char → Option Nat × Bool × Bool × List Char
  | '*' :: rest => (none, true, false, rest)
  | cs => let (n, isAscii, rest) := readNumber cs; (n, n.isSome, isAscii, rest)

/-- The name in parentheses that a text begins with, if it begins with a parenthesis, and what
follows. -/
def readName : List Char → Option (Option String × List Char)
  | '(' :: cs =>
    let name := cs.takeWhile isWordChar
    match cs.dropWhile isWordChar with
    | ')' :: rest => if name.isEmpty then none else some (some (String.ofList name), rest)
    | _ => none
  | cs => some (none, cs)

/-- Whether a letter is a conversion, in either case. Without regard to case the dotted capital I,
the dotless i and the long s are conversions too, though none that fits a value. -/
def isConversion (c : Char) : Bool :=
  "diouxefgcrsa%\u0130\u0131\u017f".toList.contains c.toLower

/-- The field after a percent sign, and what follows it. -/
def readField (cs : List Char) : Option (Field × List Char) := do
  let (name, cs) ← readName cs
  let isFlag (c : Char) : Bool := "#0+- ".toList.contains c
  let flags := cs.takeWhile isFlag
  let (width, _, isFillable, cs) := readCount (cs.dropWhile isFlag)
  let (places, isComplete, isFillable', cs) := match cs with
    | '.' :: rest =>
      let (places, isCounted, isFillable, rest') := readCount rest
      (some (places.getD 0), isCounted, isFillable, rest')
    | cs => (none, true, true, cs)
  let (isShort, cs) := match cs with
    | 'h' :: rest | 'l' :: rest | 'L' :: rest => (false, rest)
    | cs => (true, cs)
  let conversion :: cs := cs | none
  if isConversion conversion then
    let isRegular := name.isSome && isComplete && isShort
    some (⟨name, flags, width.getD 0, places, isFillable && isFillable', isRegular, conversion⟩, cs)
  else none

/-- Whether a text has a regular field somewhere. -/
def hasField : List Char → Bool
  | [] => false
  | '%' :: rest => (readField rest).any (·.1.isRegular) || hasField rest
  | _ :: rest => hasField rest

/-- Whether a text can serve as a template. -/
def isUsable (template : String) : Bool := hasField template.toList

/-! ### Filling -/

/-- A text brought to the width of a field: blanks on the right with the flag `-`, else on the
left. -/
def Field.justify (f : Field) (s : String) : String :=
  let blanks := String.ofList (List.replicate (f.width - s.length) ' ')
  if f.flags.contains '-' then s ++ blanks else blanks ++ s

/-- As many characters of a text as a field has places, brought to its width. -/
def Field.cut (f : Field) (s : String) : String :=
  f.justify (String.ofList (s.toList.take (f.places.getD s.length)))

/-- A number written by its sign, a mark such as `0x`, and digits, brought to the width of a field;
with the flag `0` zeros stand before the digits. -/
def Field.justifyNumber (f : Field) (negative : Bool) (mark digits : String) : String :=
  let sign :=
    if negative then "-" else if f.flags.contains '+' then "+"
    else if f.flags.contains ' ' then " " else ""
  let front := sign ++ mark
  if f.flags.contains '0' && !f.flags.contains '-' then
    front ++ String.ofList (List.replicate (f.width - front.length - digits.length) '0') ++ digits
  else f.justify (front ++ digits)

/-- An integer to a base with at least as many digits as the field has places. With the flag `#` the
mark of the base stands before them. -/
def Field.renderWhole (f : Field) (base : Nat) (mark : String) (n : Int) : String :=
  let digits := Nat.toDigits base n.natAbs
  let digits := String.ofList (List.replicate (f.places.getD 0 - digits.length) '0' ++ digits)
  f.justifyNumber (n < 0) (if f.flags.contains '#' then mark else "") digits

/-- A numeral with a point in it: where it has none, one stands before the power of ten or at the
end. -/
def withPoint (s : String) : String :=
  let cs := s.toList
  if cs.contains '.' then s
  else String.ofList (cs.takeWhile (· != 'e') ++ '.' :: cs.dropWhile (· != 'e'))

/-- The text of a double without its sign, for the conversions that write doubles. With the flag `#`
it always has a point, and no zeros behind the point are left out. -/
def Field.realText? (f : Field) (x : Float) : Option String :=
  let isFull := f.flags.contains '#'
  let places := f.places.getD 6
  let text? := match f.conversion.toLower with
    | 'e' => some (Numeral.scientific places x)
    | 'f' => some (Numeral.fixed places x)
    | 'g' => some ((if isFull then Numeral.generalFull else Numeral.general) (max 1 places) x)
    | _ => none
  text?.map fun s =>
    let s := if isFull && x.isFinite then withPoint s else s
    if f.conversion.isUpper then s.toUpper else s

/-- A double brought to the width of a field. -/
def Field.renderReal (f : Field) (x : Float) : Option String :=
  let isNegative := (Binary.ofFloat? x).any (·.negative) || x < 0
  (f.realText? x.abs).map (f.justifyNumber isNegative "")

/-- An integer as a conversion for numbers writes it; one beyond the range of doubles cannot be
written as a double. -/
def Field.renderNumber (f : Field) (n : Int) : Option String :=
  match f.conversion with
  | 'd' | 'i' | 'u' => some (f.renderWhole 10 "" n)
  | 'x' => some (f.renderWhole 16 "0x" n)
  | 'X' => some (f.renderWhole 16 "0x" n).toUpper
  | 'o' => some (f.renderWhole 8 "0o" n)
  | _ =>
    let x := Float.ofInt n
    if x.isFinite then f.renderReal x else none

/-- How a field shows a value; some conversions do not fit some values. -/
def Field.render (f : Field) (value : Value) : Option String :=
  if !f.isFillable then none
  else
    match f.conversion, value with
    | 's', v => some (f.cut v.shown)
    | 'r', v => some (f.cut v.described)
    | 'a', v => some (f.cut (escapeNonAscii v.described))
    | 'c', .text s => if s.length = 1 then some (f.justify s) else none
    | 'c', .number n =>
      if 0 ≤ n ∧ n.toNat.isValidChar then some (f.justify (String.singleton (Char.ofNat n.toNat)))
      else none
    | 'd', .real x | 'i', .real x | 'u', .real x =>
      (Binary.ofFloat? x).map fun b => f.renderWhole 10 "" b.truncate
    | _, .number n => f.renderNumber n
    | _, .real x => f.renderReal x
    | _, _ => none

/-- The line of a template over named values. A field without a name shows all values at once, where
there is such a text; it has to be the first field. A doubled percent sign is one; a percent sign
that begins no field, a name without a value or an unfit conversion leave no line. -/
def fill (values : String → Option Value) : Option Value → List Char → Option String
  | _, [] => some ""
  | all, '%' :: '%' :: rest => do return "%" ++ (← fill values all rest)
  | all, '%' :: rest =>
    match readField rest with
    | some (f, rest') =>
      if _ : rest'.length ≤ rest.length then do
        let shown ← f.render (← f.name.elim all values)
        return shown ++ (← fill values none rest')
      else none
    | none => none
  | all, c :: rest => do return String.singleton c ++ (← fill values all rest)
termination_by _ cs => cs.length

end Template

end NewtonRaphson
