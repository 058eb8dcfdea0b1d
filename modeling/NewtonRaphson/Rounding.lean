/-! # Powers and rounding

Powers of two and of ten, and the nearest natural number to a quotient, a tie going to the even
neighbour. Both the printing of decimals and the change from one binary format to a shorter one are
computed with them. -/

namespace NewtonRaphson

/-- The power `n` of two. -/
def twoTo (n : Nat) : Nat := Nat.pow 2 n

/-- The power `n` of ten. -/
def tenTo (n : Nat) : Nat := Nat.pow 10 n

theorem twoTo_pos (n : Nat) : 0 < twoTo n := Nat.pow_pos (by decide)

theorem tenTo_pos (n : Nat) : 0 < tenTo n := Nat.pow_pos (by decide)

/-- The natural number nearest to `n / d`; halfway between two, the even one. -/
def roundHalfEven (n d : Nat) : Nat :=
  let q := n / d
  let r := n % d
  if 2 * r < d then q else if d < 2 * r then q + 1 else q + q % 2

/-- A quotient that comes out even is not changed. -/
theorem roundHalfEven_mul_right (n : Nat) {d : Nat} (hd : 0 < d) : roundHalfEven (n * d) d = n := by
  simp [roundHalfEven, Nat.mul_div_cancel n hd, hd]

@[simp] theorem roundHalfEven_one (n : Nat) : roundHalfEven n 1 = n := by
  simpa using roundHalfEven_mul_right n Nat.one_pos

end NewtonRaphson
