import NewtonRaphson.Binary

/-! # Decimal numerals

The decimal texts of doubles: the fewest digits that read back as the same number, a fixed number of
significant digits, or a fixed number of places. All rounding is done on whole numbers, and a tie
goes to the even digit. -/

namespace NewtonRaphson

/-- A positive fraction of two natural numbers. -/
structure Fraction where
  /-- The numerator. -/
  num : Nat
  /-- The denominator. -/
  den : Nat

namespace Fraction

/-- The fraction `mantissa · 2 ^ exponent`. -/
def ofBinary (mantissa : Nat) (exponent : Int) : Fraction :=
  if exponent ≥ 0 then ⟨mantissa * twoTo exponent.toNat, 1⟩ else ⟨mantissa, twoTo (-exponent).toNat⟩

/-- The fraction in units of `10 ^ e`. -/
def inUnitsOf (e : Int) (x : Fraction) : Fraction :=
  if e ≥ 0 then ⟨x.num, x.den * tenTo e.toNat⟩ else ⟨x.num * tenTo (-e).toNat, x.den⟩

/-- Whether the fraction is below `10 ^ e`. -/
def below (e : Int) (x : Fraction) : Bool :=
  let y := x.inUnitsOf e
  y.num < y.den

/-- The power of ten of the leading digit. The binary length gives it up to one. -/
def magnitude (x : Fraction) : Int :=
  let guess := ((x.num.log2 : Int) - x.den.log2) * 30103 / 100000
  if x.below guess then guess - 1 else if x.below (guess + 1) then guess else guess + 1

end Fraction

/-- A **decimal**: digits, the first of which stands at a power of ten. -/
structure Decimal where
  /-- The digits, most significant first. -/
  digits : List Char
  /-- The power of ten of the first digit. -/
  exponent : Int

namespace Decimal

/-- The digits of `n`, where the last one stands at `10 ^ unit`. -/
def ofUnits (n : Nat) (unit : Int) : Decimal :=
  let digits := Nat.toDigits 10 n
  ⟨digits, unit + digits.length - 1⟩

/-- A decimal of one zero digit more or less is the same number; this one ends in no zero. -/
def trim (d : Decimal) : Decimal :=
  { d with digits := (d.digits.reverse.dropWhile (· == '0')).reverse }

/-- The fraction rounded to `count` significant digits. -/
def significant (count : Nat) (x : Fraction) : Decimal :=
  let unit := x.magnitude - count + 1
  let y := x.inUnitsOf unit
  let d := ofUnits (roundHalfEven y.num y.den) unit
  { d with digits := d.digits.take count }

/-- The interval of numbers that a double is the nearest to, as bounds in quarters of its last
bit. -/
structure Neighbourhood where
  /-- The double itself. -/
  centre : Nat
  /-- The lower end. -/
  lower : Nat
  /-- The upper end. -/
  upper : Nat
  /-- The power of two that the three are scaled by. -/
  exponent : Int
  /-- Whether the ends belong to it. -/
  closed : Bool

/-- The neighbourhood of a positive double: half a gap on both sides, but a quarter below a power of
two, where the gap is half as wide. -/
def Neighbourhood.ofBinary (b : Binary) : Neighbourhood where
  centre := 4 * b.mantissa
  lower :=
    if b.mantissa = twoTo 52 ∧ b.exponent ≠ -1074 then 4 * b.mantissa - 1 else 4 * b.mantissa - 2
  upper := 4 * b.mantissa + 2
  exponent := b.exponent - 2
  closed := b.mantissa % 2 = 0

/-- The multiple of `10 ^ unit` nearest to the centre, if the neighbourhood holds one next to it. -/
def Neighbourhood.gridPoint? (h : Neighbourhood) (unit : Int) : Option Nat :=
  let scale n := (Fraction.ofBinary n h.exponent).inUnitsOf unit
  let centre := scale h.centre
  let low := (scale h.lower).num
  let high := (scale h.upper).num
  let den := centre.den
  let holds (k : Nat) : Bool :=
    if h.closed then low ≤ k * den && k * den ≤ high else low < k * den && k * den < high
  let floor := centre.num / den
  let nearest := roundHalfEven centre.num den
  let other := if nearest = floor then floor + 1 else floor
  if holds nearest then some nearest else if holds other then some other else none

/-- The shortest decimal in the neighbourhood of a positive double, of several the nearest.
Seventeen digits always suffice. -/
def shortest (b : Binary) : Decimal :=
  let hood := Neighbourhood.ofBinary b
  let x := Fraction.ofBinary b.mantissa b.exponent
  let top := x.magnitude
  let found := (List.range 17).findSome? fun (k : Nat) =>
    (hood.gridPoint? (top - k)).map fun n => ofUnits n (top - k)
  (found.getD (significant 17 x)).trim

/-- The power of ten behind an `e`: a sign and at least two digits. -/
def exponentText (e : Int) : String :=
  let digits := toString e.natAbs
  (if e < 0 then "e-" else "e+") ++ (if e.natAbs < 10 then "0" ++ digits else digits)

/-- One digit, a point and the other digits, and the power of ten. -/
def scientific (d : Decimal) : String :=
  let mantissa := match d.digits with
    | [] => "0"
    | [c] => String.singleton c
    | c :: rest => String.ofList (c :: '.' :: rest)
  mantissa ++ exponentText d.exponent

/-- The digits with the point where it belongs and no exponent; a whole number has no point. -/
def positional (d : Decimal) : String :=
  if d.exponent < 0 then
    "0." ++ String.ofList (List.replicate (-d.exponent - 1).toNat '0' ++ d.digits)
  else
    let whole := d.exponent.toNat + 1
    let digits := d.digits ++ List.replicate (whole - d.digits.length) '0'
    let rest := digits.drop whole
    String.ofList (digits.take whole ++ if rest.isEmpty then [] else '.' :: rest)

end Decimal

/-! ## Number formats -/

namespace Numeral

/-- The text of a value that is not a number, none for a number. -/
def wordOf? (x : Float) : Option String :=
  if x.isNaN then some "nan"
  else if x.isFinite then none
  else some (if x < 0 then "-inf" else "inf")

/-- Writes a double by its sign, one rule for zero and one for positive numbers. -/
def textWith (zero : String) (positive : Binary → String) (x : Float) : String :=
  match Binary.ofFloat? x with
  | none => (wordOf? x).getD ""
  | some b =>
    (if b.negative then "-" else "") ++ if b.mantissa = 0 then zero else positive b

/-- **Plain** text: the fewest digits that read back, positional from `0.0001` up to below `10 ^ 16`
and always with a point there. -/
def plain : Float → String :=
  textWith "0.0" fun b =>
    let d := Decimal.shortest b
    if -4 ≤ d.exponent ∧ d.exponent < 16 then
      d.positional ++ if d.exponent.toNat + 1 ≥ d.digits.length ∧ d.exponent ≥ 0 then ".0" else ""
    else d.scientific

/-- **General** text: at most `count` significant digits, positional from `0.0001` up to below
`10 ^ count`, no zeros behind the point. -/
def general (count : Nat) : Float → String :=
  textWith "0" fun b =>
    let d := Decimal.significant count (Fraction.ofBinary b.mantissa b.exponent)
    if -4 ≤ d.exponent ∧ d.exponent < count then d.trim.positional else d.trim.scientific

/-- General text with exactly `count` significant digits, zeros behind the point among them. -/
def generalFull (count : Nat) : Float → String :=
  let places := String.ofList (List.replicate (count - 1) '0')
  textWith (if count ≤ 1 then "0" else "0." ++ places) fun b =>
    let d := Decimal.significant count (Fraction.ofBinary b.mantissa b.exponent)
    if -4 ≤ d.exponent ∧ d.exponent < count then d.positional else d.scientific

/-- **Compact** text: at most six significant digits. -/
def compact : Float → String := general 6

/-- **Scientific** text with a fixed number of places behind the point. -/
def scientific (places : Nat) : Float → String :=
  let zero := "0" ++ (if places = 0 then "" else "." ++ String.ofList (List.replicate places '0'))
  textWith (zero ++ "e+00") fun b =>
    (Decimal.significant (places + 1) (Fraction.ofBinary b.mantissa b.exponent)).scientific

/-- **Fixed** text with a fixed number of places behind the point. -/
def fixed (places : Nat) : Float → String :=
  let write (n : Nat) : String :=
    let digits := Nat.toDigits 10 n
    let digits := List.replicate (places + 1 - digits.length) '0' ++ digits
    let whole := digits.length - places
    String.ofList (digits.take whole ++ if places = 0 then [] else '.' :: digits.drop whole)
  textWith (write 0) fun b =>
    let x := (Fraction.ofBinary b.mantissa b.exponent).inUnitsOf (-places)
    write (roundHalfEven x.num x.den)

end Numeral

end NewtonRaphson
