import NewtonRaphson.Decimal
import NewtonRaphson.Text.Blank
import NewtonRaphson.Text.Digit

/-! # Reading numerals

The double that a text stands for. A numeral is a sign or none, digits with a point among them or
not, and perhaps a power of ten; there are words for what is no number. Blanks may stand around all
this and single underscores between digits, and the digits may be those of any script. The number is
rounded once, a tie going to the even mantissa. -/

namespace NewtonRaphson

namespace Fraction

/-- The fraction `n · 10 ^ e`. -/
def ofUnits (n : Nat) (e : Int) : Fraction :=
  if e ≥ 0 then ⟨n * tenTo e.toNat, 1⟩ else ⟨n, tenTo (-e).toNat⟩

/-- The fraction in units of `2 ^ e`. -/
def inBinaryUnitsOf (e : Int) (x : Fraction) : Fraction :=
  if e ≥ 0 then ⟨x.num, x.den * twoTo e.toNat⟩ else ⟨x.num * twoTo (-e).toNat, x.den⟩

/-- The power of two of the leading bit. The lengths of numerator and denominator give it up to
one. -/
def leadingBit (x : Fraction) : Int :=
  let guess := (x.num.log2 : Int) - x.den.log2
  let y := x.inBinaryUnitsOf guess
  if y.num < y.den then guess - 1 else guess

/-- The parts of the double nearest to a positive fraction. Rounding up may carry into a further
bit. -/
def nearest (negative : Bool) (x : Fraction) : Binary :=
  let exponent := max (x.leadingBit - 52) (-1074)
  let y := x.inBinaryUnitsOf exponent
  let mantissa := roundHalfEven y.num y.den
  if mantissa = twoTo 53 then ⟨negative, twoTo 52, exponent + 1⟩ else ⟨negative, mantissa, exponent⟩

end Fraction

namespace Numeral

/-- A character as numerals are made of: a digit of any script as the ASCII digit, a blank beyond
ASCII as a space. -/
def asciiForm (c : Char) : Char :=
  if c.toNat < 128 then c else if isBlank c then ' ' else (digitValue? c).elim c Nat.digitChar

/-- Whether a character may stand around a numeral: a space, a tab, or the end of a line or page. -/
def isSpace (c : Char) : Bool := c == ' ' || (9 ≤ c.toNat && c.toNat ≤ 13)

/-- The text without the spaces around it. -/
def trimSpaces (cs : List Char) : List Char :=
  ((cs.dropWhile isSpace).reverse.dropWhile isSpace).reverse

/-- The text without underscores, given whether a digit stands before it. An underscore that does
not stand between two digits is in no numeral. -/
def joinDigits? : Bool → List Char → Option (List Char)
  | _, [] => some []
  | afterDigit, c :: rest =>
    if c = '_' then
      if afterDigit && rest.head?.any Char.isDigit then joinDigits? false rest else none
    else (joinDigits? c.isDigit rest).map (c :: ·)

/-- Whether a text begins with a minus sign, and what follows a sign. -/
def readSign : List Char → Bool × List Char
  | '-' :: rest => (true, rest)
  | '+' :: rest => (false, rest)
  | cs => (false, cs)

/-- The digits behind a point that a text begins with, and what follows them. -/
def readPlaces : List Char → List Char × List Char
  | '.' :: rest => (rest.takeWhile Char.isDigit, rest.dropWhile Char.isDigit)
  | cs => ([], cs)

/-- The power of ten at the end of a numeral: none, or an `e` with an integer. -/
def powerOf? : List Char → Option Int
  | [] => some 0
  | c :: rest =>
    let (negative, ds) := readSign rest
    if (c = 'e' ∨ c = 'E') ∧ ds ≠ [] ∧ ds.all Char.isDigit then
      some (if negative then -Nat.ofDigitChars 10 ds 0 else Nat.ofDigitChars 10 ds 0)
    else none

/-- The double nearest to `n · 10 ^ e` with a sign, where `n` has at most `count` digits. Far beyond
the range of doubles there is nothing to round. -/
def ofUnits (negative : Bool) (n count : Nat) (e : Int) : Float :=
  if n = 0 ∨ e + count < -400 then Binary.ofFields negative 0
  else if 400 < e then Binary.ofFields negative (2047 * twoTo 52)
  else ((Fraction.ofUnits n e).nearest negative).toFloat

/-- The double of digits, with a point among them or not, and a power of ten. -/
def ofDigits? (negative : Bool) (cs : List Char) : Option Float :=
  let whole := cs.takeWhile Char.isDigit
  let (places, rest) := readPlaces (cs.dropWhile Char.isDigit)
  let digits := whole ++ places
  if digits.isEmpty then none
  else (powerOf? rest).map fun e =>
    ofUnits negative (Nat.ofDigitChars 10 digits 0) digits.length (e - places.length)

/-- The value of a word for what is no number, in any case. -/
def ofWord? (negative : Bool) (cs : List Char) : Option Float :=
  match String.ofList (cs.map Char.toLower) with
  | "inf" | "infinity" => some (Binary.ofFields negative (2047 * twoTo 52))
  | "nan" => some (0.0 / 0.0)
  | _ => none

/-- The double that a text **reads as**, if it is a numeral or a word for what is no number. -/
def read? (s : String) : Option Float :=
  (joinDigits? false (s.toList.map asciiForm)).bind fun cs =>
    let (negative, body) := readSign (trimSpaces cs)
    (ofDigits? negative body).or (ofWord? negative body)

end Numeral

end NewtonRaphson
