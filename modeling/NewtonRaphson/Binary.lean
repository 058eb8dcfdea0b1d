import NewtonRaphson.Precision
import NewtonRaphson.Rounding

/-! # Binary numbers

A finite double as a sign, a whole mantissa and a power of two. Comparison with integers, truncation
and the change to single precision are done on these exact parts. -/

namespace NewtonRaphson

/-- The number `± mantissa · 2 ^ exponent`. -/
structure Binary where
  /-- Whether the sign is set; a zero has a sign too. -/
  negative : Bool
  /-- The whole mantissa. -/
  mantissa : Nat
  /-- The power of two it is scaled by. -/
  exponent : Int
  deriving DecidableEq

namespace Binary

/-- The parts of a double, none of an infinity or an undefined value. -/
def ofFloat? (x : Float) : Option Binary :=
  let bits := x.toBits.toNat
  let fraction := bits % twoTo 52
  let biased := bits / twoTo 52 % twoTo 11
  let negative := bits / twoTo 63 == 1
  if biased = 2047 then none
  else if biased = 0 then some ⟨negative, fraction, -1074⟩
  else some ⟨negative, twoTo 52 + fraction, (biased : Int) - 1075⟩

/-- The double with a given sign and the given remaining bits. -/
def ofFields (negative : Bool) (rest : Nat) : Float :=
  Float.ofBits (UInt64.ofNat ((if negative then twoTo 63 else 0) + rest))

/-- The double that has these parts, where one exists; an infinity beyond the largest double. -/
def toFloat (b : Binary) : Float :=
  if b.mantissa = 0 then ofFields b.negative 0
  else
    let width := b.mantissa.log2
    let top := b.exponent + width
    if top ≥ 1024 then ofFields b.negative (2047 * twoTo 52)
    else if top ≥ -1022 then
      ofFields b.negative ((top + 1023).toNat * twoTo 52 +
        (b.mantissa * twoTo (52 - width) - twoTo 52))
    else ofFields b.negative (b.mantissa * twoTo (b.exponent + 1074).toNat)

/-- The nearest number with at most `bits` significant bits that is a multiple of `2 ^ least`. -/
def shorten (bits : Nat) (least : Int) (b : Binary) : Binary :=
  let wanted := b.exponent + (b.mantissa.log2 + 1) - bits
  let exponent := if wanted < least then least else wanted
  if exponent ≤ b.exponent then b
  else { b with
    mantissa := roundHalfEven b.mantissa (twoTo (exponent - b.exponent).toNat), exponent }

/-- Whether the number is at least `2 ^ top` without its sign. -/
def reaches (top : Int) (b : Binary) : Bool :=
  b.mantissa != 0 && b.exponent + b.mantissa.log2 ≥ top

/-- The order of a number against an integer. -/
def compareInt (b : Binary) (n : Int) : Ordering :=
  let signed : Int := if b.negative then -b.mantissa else b.mantissa
  if b.exponent ≥ 0 then compare (signed * twoTo b.exponent.toNat) n
  else compare signed (n * twoTo (-b.exponent).toNat)

/-- The whole part, the fraction dropped. -/
def truncate (b : Binary) : Int :=
  let magnitude :=
    if b.exponent ≥ 0 then b.mantissa * twoTo b.exponent.toNat
    else b.mantissa / twoTo (-b.exponent).toNat
  if b.negative then -magnitude else magnitude

/-- The least integer that is not below the number. -/
def ceiling (b : Binary) : Int :=
  if b.compareInt b.truncate = .gt then b.truncate + 1 else b.truncate

end Binary

/-- The nearest number of a precision, a tie going to the even neighbour; beyond the largest single,
an infinity. -/
def Precision.nearest : Precision → Float → Float
  | .double, x => x
  | .single, x =>
    match Binary.ofFloat? x with
    | none => x
    | some b =>
      let short := b.shorten 24 (-149)
      if short.reaches 128 then Binary.ofFields b.negative (2047 * twoTo 52) else short.toFloat

@[simp] theorem Precision.nearest_double (x : Float) : Precision.double.nearest x = x := rfl

end NewtonRaphson
