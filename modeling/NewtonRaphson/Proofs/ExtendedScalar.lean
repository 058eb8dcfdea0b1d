import NewtonRaphson.Proofs.ExactScalar
import NewtonRaphson.SingularValues

/-! # Exact scalars with infinities

Exact arithmetic has no overflow and no undefined values, and so says nothing about matrices that
have such entries. Here the two infinities and the undefined value are added to scalars, under the
rules of binary floating point: a number over zero is infinite, a difference of infinities is
undefined, and comparisons with the undefined value fail.

* **`Extended K`** — a number, an infinity or the undefined value; the operations on numbers are
  those of `K`.
* **`Extended.zero_lt_iff`** — above zero are the positive numbers and one infinity.
* **`Extended.exists_reciprocal`** — a threshold above zero has a reciprocal, which is a number. -/

namespace NewtonRaphson

/-- **Extended scalars**: numbers, infinities, and the undefined value. -/
inductive Extended (K : Type) where
  /-- A number. -/
  | number (x : K)
  /-- Above all numbers, or below them. -/
  | infinity (negative : Bool)
  /-- What has no value. -/
  | undefined
  deriving DecidableEq

namespace Extended

variable {K : Type} [Scalar K]

/-! ## (1) Arithmetic -/

/-- The sum; infinities of opposite signs have none. -/
def add (p : Precision) : Extended K → Extended K → Extended K
  | number x, number y => number (Scalar.add p x y)
  | infinity s, number _ => infinity s
  | number _, infinity t => infinity t
  | infinity s, infinity t => if s = t then infinity s else undefined
  | undefined, _ => undefined
  | _, undefined => undefined

/-- The scalar with the opposite sign. -/
def neg (p : Precision) : Extended K → Extended K
  | number x => number (Scalar.neg p x)
  | infinity s => infinity !s
  | undefined => undefined

/-- The difference; infinities of equal signs have none. -/
def sub (p : Precision) : Extended K → Extended K → Extended K
  | number x, number y => number (Scalar.sub p x y)
  | x, y => add p x (neg p y)

/-- An infinity times a number: its sign is that of both, and with zero there is no product. -/
def timesInfinity (s : Bool) (x : K) : Extended K :=
  if Scalar.eq x Scalar.zero then undefined else infinity (s ^^ Scalar.lt x Scalar.zero)

/-- The product. -/
def mul (p : Precision) : Extended K → Extended K → Extended K
  | number x, number y => number (Scalar.mul p x y)
  | infinity s, number y => timesInfinity s y
  | number x, infinity t => timesInfinity t x
  | infinity s, infinity t => infinity (s ^^ t)
  | undefined, _ => undefined
  | _, undefined => undefined

/-- The quotient. A number over zero is infinite, with the sign of the number, and zero over zero is
undefined. -/
def div (p : Precision) : Extended K → Extended K → Extended K
  | number x, number y =>
    if Scalar.eq y Scalar.zero then timesInfinity false x else number (Scalar.div p x y)
  | infinity s, number y => infinity (s ^^ Scalar.lt y Scalar.zero)
  | number _, infinity _ => number Scalar.zero
  | infinity _, infinity _ => undefined
  | undefined, _ => undefined
  | _, undefined => undefined

/-- The square root; nothing below zero has one. -/
def sqrt (p : Precision) : Extended K → Extended K
  | number x => if Scalar.lt x Scalar.zero then undefined else number (Scalar.sqrt p x)
  | infinity false => infinity false
  | infinity true => undefined
  | undefined => undefined

/-- The scalar without its sign. -/
def abs : Extended K → Extended K
  | number x => number (Scalar.abs x)
  | infinity _ => infinity false
  | undefined => undefined

/-- The nearest scalar of a precision. -/
def round (p : Precision) : Extended K → Extended K
  | number x => number (Scalar.round p x)
  | infinity s => infinity s
  | undefined => undefined

/-! ## (2) Comparisons -/

/-- Strictly less. -/
def lt : Extended K → Extended K → Bool
  | number x, number y => Scalar.lt x y
  | infinity s, number _ => s
  | number _, infinity t => !t
  | infinity s, infinity t => s && !t
  | undefined, _ => false
  | _, undefined => false

/-- Equal. -/
def eq : Extended K → Extended K → Bool
  | number x, number y => Scalar.eq x y
  | infinity s, infinity t => s == t
  | _, _ => false

/-- Less or equal. -/
def le : Extended K → Extended K → Bool
  | number x, number y => Scalar.le x y
  | x, y => lt x y || eq x y

/-- Whether the scalar is a number. -/
def isFinite : Extended K → Bool
  | number x => Scalar.isFinite x
  | infinity _ => false
  | undefined => false

instance : Scalar (Extended K) where
  zero := number Scalar.zero
  one := number Scalar.one
  ofNat n := number (Scalar.ofNat n)
  add := add
  sub := sub
  mul := mul
  div := div
  sqrt := sqrt
  neg := neg
  abs := abs
  round := round
  le := le
  lt := lt
  eq := eq
  isFinite := isFinite
  epsilon p := number (Scalar.epsilon p)

/-! ## (3) Numbers among extended scalars -/

section Numbers

variable (p : Precision) (x y : K)

@[simp] theorem zero_eq : (Scalar.zero : Extended K) = number Scalar.zero := rfl

@[simp] theorem one_eq : (Scalar.one : Extended K) = number Scalar.one := rfl

@[simp] theorem ofNat_eq (n : Nat) : (Scalar.ofNat n : Extended K) = number (Scalar.ofNat n) := rfl

@[simp] theorem epsilon_eq : (Scalar.epsilon p : Extended K) = number (Scalar.epsilon p) := rfl

@[simp] theorem mul_number : Scalar.mul p (number x) (number y) = number (Scalar.mul p x y) := rfl

@[simp] theorem le_number : Scalar.le (number x) (number y) = Scalar.le x y := rfl

@[simp] theorem lt_number : Scalar.lt (number x) (number y) = Scalar.lt x y := rfl

@[simp] theorem eq_number : Scalar.eq (number x) (number y) = Scalar.eq x y := rfl

/-- A quotient by a number that is not zero is that of the numbers. -/
theorem div_number {y : K} (h : Scalar.eq y Scalar.zero = false) :
    Scalar.div p (number x) (number y) = number (Scalar.div p x y) := by
  show (if Scalar.eq y Scalar.zero then _ else _) = _
  rw [h, if_neg Bool.false_ne_true]

end Numbers

/-- The number that an extended scalar is; zero stands in for the others. -/
def toNumber : Extended K → K
  | number x => x
  | infinity _ => Scalar.zero
  | undefined => Scalar.zero

end Extended

/-! ## (4) Above zero -/

namespace Extended

variable {K : Type} [Field K] [LinearOrder K] [Scalar K] [ExactScalar K] {x : Extended K}

/-- What is above zero is a positive number or an infinity. -/
theorem zero_lt_iff :
    Scalar.lt Scalar.zero x = true ↔
    (∃ y, 0 < y ∧ x = number y) ∨ x = infinity false := by
  constructor
  · intro h
    cases x with
    | number y => exact .inl ⟨y, by simpa using h, rfl⟩
    | infinity s =>
      cases s with
      | false => exact .inr rfl
      | true => cases h
    | undefined => cases h
  · rintro (⟨y, hy, rfl⟩ | rfl)
    · simpa using hy
    · rfl

/-- An infinity times a positive number. -/
theorem mul_infinity (p : Precision) {y : K} (h : 0 < y) :
    Scalar.mul p (infinity false) (number y) = infinity false := by
  show timesInfinity false y = _
  simp [timesInfinity, h.ne', h.le]

variable [IsStrictOrderedRing K]

/-- One over zero is infinite. -/
theorem infinity_eq : (Scalar.infinity : Extended K) = infinity false := by
  show (if Scalar.eq (Scalar.zero : K) Scalar.zero then timesInfinity false Scalar.one else _) = _
  simp [timesInfinity]

/-- **What is above zero has a reciprocal**, which is a number and not below zero. A number is at
most a multiple of a positive number exactly if its product with the reciprocal is at most that
number. -/
theorem exists_reciprocal (h : Scalar.lt Scalar.zero x = true) :
    ∃ b : K, 0 ≤ b ∧ Scalar.div .double Scalar.one x = number b ∧
      ∀ (p : Precision) (low high : K), 0 < high →
        Scalar.le (number low) (Scalar.mul p x (number high)) = decide (b * low ≤ high) := by
  rcases zero_lt_iff.mp h with ⟨y, hy, rfl⟩ | rfl
  · refine ⟨1 / y, (one_div_pos.mpr hy).le, ?_, fun p low high _ => ?_⟩
    · rw [one_eq, div_number _ _ (by simpa using hy.ne'), ExactScalar.div_eq _ _ _ hy.ne',
        ExactScalar.one_eq]
    · rw [mul_number, le_number, ExactScalar.le_eq, ExactScalar.mul_eq, one_div_mul_eq_div,
        decide_eq_decide]
      exact (div_le_iff₀' hy).symm
  · -- an infinite threshold lies above everything, and its reciprocal is zero
    refine ⟨0, le_rfl, ?_, fun p low high hhigh => ?_⟩
    · exact congrArg number ExactScalar.zero_eq
    · rw [mul_infinity p hhigh, zero_mul, decide_eq_true hhigh.le]
      rfl

end Extended

/-! ## (5) Singular values -/

/-- The singular values of numbers, as extended scalars. -/
instance {K : Type} [SingularValues K] : SingularValues (Extended K) where
  singularValues p _ g := (SingularValues.singularValues p (g.map Extended.toNumber)).map .number

end NewtonRaphson
