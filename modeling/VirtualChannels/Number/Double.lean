/-
  Doubles. A double is held as its bit pattern and as a whole number of the smallest positive
  double, 2^-1074: every finite double is such a whole number, with a sign.
-/

namespace VirtualChannels.Number

def bits (x : Float) : Nat := x.toBits.toNat

/-- The bit of the sign. -/
def signBit : Nat := 0x8000000000000000

/-- The leading bit of a magnitude, which the pattern of a normal one leaves out. -/
def leadingBit : Nat := 0x10000000000000

/-- The pattern of positive infinity; the finite magnitudes lie below it. -/
def infinityBits : Nat := 0x7FF0000000000000

def magnitudeBits (x : Float) : Nat := bits x % signBit

def isNegative (x : Float) : Bool := signBit ≤ bits x

def isFinite (x : Float) : Bool := magnitudeBits x < infinityBits

/-- The smallest positive double is 2 to the power of minus this. -/
def depth : Nat := 1074

/-- How many times 2^-1074 goes into one. -/
def unitsPerOne : Nat := Nat.pow 2 depth

/-- The magnitude with this bit pattern, in units of 2^-1074. -/
def unitsOfBits (b : Nat) : Nat :=
  if b < leadingBit then b
  else (leadingBit + b % leadingBit) * Nat.pow 2 (b / leadingBit - 1)

/-- The magnitude of a finite double in units of 2^-1074. -/
def units (x : Float) : Nat := unitsOfBits (magnitudeBits x)

def isZero (x : Float) : Bool := magnitudeBits x == 0

/-- Finite and without a fractional part. -/
def isWhole (x : Float) : Bool := isFinite x && units x % unitsPerOne == 0

/-- Whole and not below zero; a negative zero counts as zero. -/
def isNatural (x : Float) : Bool := isWhole x && (!isNegative x || isZero x)

/-- The magnitude cut down to a whole number. -/
def wholeUnits (x : Float) : Nat := units x / unitsPerOne

/-- The natural number a double is, if it is one. -/
def toNat? (x : Float) : Option Nat := if isNatural x then some (wholeUnits x) else none

def ofBits (b : Nat) : Float := Float.ofBits b.toUInt64

/-- The double with a sign and the bit pattern of a magnitude. -/
def withSign (negative : Bool) (magnitude : Nat) : Float :=
  ofBits ((if negative then signBit else 0) + magnitude)

def infinity : Float := ofBits infinityBits

def notANumber : Float := 0.0 / 0.0

def zero (negative : Bool) : Float := withSign negative 0

theorem unitsPerOne_pos : 0 < unitsPerOne := by
  unfold unitsPerOne
  generalize depth = n
  exact Nat.two_pow_pos n

/-! ## Rounding

The double nearest a fraction, a tie going to the even pattern. In units of 2^-1074 the
doubles of one binade are evenly spaced, so one whole quotient, rounded, gives the pattern;
a quotient that rounds up to the next binade carries into the exponent by itself. -/

/-- The quotient rounded to the nearest whole number, a tie to the even one. -/
def roundDiv (num den : Nat) : Nat :=
  let q := num / den
  let r := num % den
  if 2 * r < den then q else if den < 2 * r then q + 1 else q + q % 2

/-- The bit pattern of the double nearest `num / den`. -/
def nearestBits (num den : Nat) : Nat :=
  let scaled := num * unitsPerOne
  let shift := Nat.log2 (scaled / den) - 52
  min infinityBits (roundDiv scaled (den * Nat.pow 2 shift) + shift * leadingBit)

def nearest (negative : Bool) (num den : Nat) : Float := withSign negative (nearestBits num den)

/-- The whole number as a double. -/
def ofInt (i : Int) : Float := nearest (i < 0) i.natAbs 1

theorem roundDiv_scale (num den k : Nat) (hk : 0 < k) :
    roundDiv (num * k) (den * k) = roundDiv num den := by
  unfold roundDiv
  simp only [Nat.mul_div_mul_right _ _ hk, Nat.mul_mod_mul_right, ← Nat.mul_assoc]
  simp only [Nat.mul_lt_mul_right hk]

theorem nearestBits_scale (num den k : Nat) (hk : 0 < k) :
    nearestBits (num * k) (den * k) = nearestBits num den := by
  unfold nearestBits
  have h : num * k * unitsPerOne / (den * k) = num * unitsPerOne / den := by
    rw [Nat.mul_right_comm, Nat.mul_div_mul_right _ _ hk]
  have h' (s : Nat) : roundDiv (num * k * unitsPerOne) (den * k * s)
      = roundDiv (num * unitsPerOne) (den * s) := by
    rw [Nat.mul_right_comm num, Nat.mul_right_comm den, roundDiv_scale _ _ _ hk]
  simp only [h, h']

theorem roundDiv_of_dvd (q den : Nat) (hd : 0 < den) : roundDiv (q * den) den = q := by
  unfold roundDiv
  simp [Nat.mul_div_cancel _ hd, hd]

/-! ## Operations

The operations on doubles that formulas use beyond the four basic ones. A number that is
none is passed on, and a negative zero lies below a positive one. -/

/-- Powers. An exponent that is no number gives none, also for the base one, and one to an
infinite power is no number. -/
def power (x y : Float) : Float :=
  if y.isNaN then notANumber
  else if x.abs == 1.0 && y.isInf then notANumber
  else x.pow y

def lesser (x y : Float) : Float :=
  if x.isNaN || y.isNaN then notANumber
  else if x < y then x
  else if y < x then y
  else if isNegative x then x else y

def greater (x y : Float) : Float :=
  if x.isNaN || y.isNaN then notANumber
  else if x < y then y
  else if y < x then x
  else if isNegative x then y else x

/-- The least of the numbers, positive infinity if there is none. -/
def least (xs : List Float) : Float := xs.foldl lesser infinity

/-- The greatest of the numbers, negative infinity if there is none. -/
def greatest (xs : List Float) : Float := xs.foldl greater (withSign true infinityBits)

/-- Cut off toward zero. -/
def truncate (x : Float) : Float := if x < 0.0 then x.ceil else x.floor

def fractionalPart (x : Float) : Float := x - truncate x

/-- The nearest whole number, a half away from zero; a zero result is positive. -/
def roundHalfAway (x : Float) : Float :=
  let rounded := x.round
  if rounded == 0.0 then 0.0 else rounded

/-- One with the sign of the number, the sign of a zero included. -/
def signum (x : Float) : Float :=
  if x.isNaN then notANumber else if isNegative x then -1.0 else 1.0

end VirtualChannels.Number

namespace VirtualChannels

/-! ## Scalars

The arithmetic that searching times and summing samples needs. Doubles are one such arithmetic;
the searches and sums are written for any. -/

class Scalar (α : Type) where
  zero : α
  add : α → α → α
  sub : α → α → α
  mul : α → α → α
  /-- Division by a count. -/
  divideBy : α → Nat → α
  less : α → α → Bool
  atMost : α → α → Bool
  same : α → α → Bool
  lesser : α → α → α
  greater : α → α → α
  distance : α → α → α
  isFinite : α → Bool

instance : Scalar Float where
  zero := 0.0
  add x y := x + y
  sub x y := x - y
  mul x y := x * y
  divideBy x n := x / Float.ofNat n
  less x y := x < y
  atMost x y := x ≤ y
  same x y := x == y
  lesser := Number.lesser
  greater := Number.greater
  distance x y := (x - y).abs
  isFinite := Number.isFinite

end VirtualChannels
