import NewtonRaphson.Binary
import NewtonRaphson.Scalar

/-! # Binary floating point as scalars

Doubles are the carrier. A single-precision operation is the double-precision one followed by one
more rounding: 53 bits are more than twice 24 plus two, so rounding twice gives the same number as
rounding once for sums, differences, products, quotients and square roots of singles. -/

namespace NewtonRaphson

instance : Scalar Float where
  zero := 0.0
  one := 1.0
  ofNat := Float.ofNat
  add p x y := p.nearest (x + y)
  sub p x y := p.nearest (x - y)
  mul p x y := p.nearest (x * y)
  div p x y := p.nearest (x / y)
  sqrt p x := p.nearest x.sqrt
  neg p x := p.nearest (-x)
  abs x := x.abs
  round p x := p.nearest x
  le x y := x ≤ y
  lt x y := x < y
  eq x y := x == y
  isFinite x := x.isFinite
  epsilon
    | .single => 1.1920928955078125e-7
    | .double => 2.220446049250313e-16

end NewtonRaphson
