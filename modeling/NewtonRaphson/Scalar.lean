import NewtonRaphson.Precision

/-! # Scalars

The arithmetic every matrix operation is written in. One carrier serves both precisions: an
operation takes the precision its result is rounded to, so that a single-precision number is a
scalar that `Scalar.round .single` leaves alone. Binary floating point is one instance, exact
arithmetic in an ordered field (where rounding does nothing) another; the algorithms are the same
definitions for both. -/

namespace NewtonRaphson

/-- **Scalar arithmetic**: the operations of a field up to rounding, comparisons that may fail on
unordered values, and the test that tells numbers from overflow. -/
class Scalar (S : Type) where
  /-- The neutral element of addition. -/
  zero : S
  /-- The neutral element of multiplication. -/
  one : S
  /-- A natural number, rounded to the carrier. -/
  ofNat : Nat → S
  /-- The sum, rounded to a precision. -/
  add : Precision → S → S → S
  /-- The difference, rounded to a precision. -/
  sub : Precision → S → S → S
  /-- The product, rounded to a precision. -/
  mul : Precision → S → S → S
  /-- The quotient, rounded to a precision. -/
  div : Precision → S → S → S
  /-- The square root, rounded to a precision. -/
  sqrt : Precision → S → S
  /-- The number with the opposite sign, which a precision that has the number has too. -/
  neg : Precision → S → S
  /-- The number without its sign. -/
  abs : S → S
  /-- The nearest number of a precision. -/
  round : Precision → S → S
  /-- Less or equal; false of an unordered pair. -/
  le : S → S → Bool
  /-- Strictly less; false of an unordered pair. -/
  lt : S → S → Bool
  /-- Equal as numbers; false of an unordered pair. -/
  eq : S → S → Bool
  /-- Whether the scalar is a number, not an infinity and not an undefined value. -/
  isFinite : S → Bool
  /-- The distance from one to the next number of a precision. -/
  epsilon : Precision → S

namespace Scalar

variable {S : Type} [Scalar S]

/-- The value that no number is: zero over zero. -/
def undefined : S := div .double (zero : S) zero

/-- One over zero, which exceeds every number where overflow exists. -/
def infinity : S := div .double (one : S) zero

end Scalar

end NewtonRaphson
