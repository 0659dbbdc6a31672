import VirtualChannels.Number.Double
import VirtualChannels.Text.Basic

/-
  Decimal numbers: a sign, a whole number of digits and a power of ten. Reading one from its
  text keeps it exact; only `toFloat` rounds, once, to the nearest double.
-/

namespace VirtualChannels

structure Decimal where
  negative : Bool := false
  digits : Nat
  exponent : Int := 0

namespace Decimal

/-- How many decimal digits a number has; zero has one. -/
def digitCount (n : Nat) : Nat := if n < 10 then 1 else digitCount (n / 10) + 1
termination_by n
decreasing_by omega

/-- The decimal digits of a number as code units. -/
def digitText (n : Nat) : Text :=
  if n < 10 then [(0x30 + n).toUInt16] else digitText (n / 10) ++ [(0x30 + n % 10).toUInt16]
termination_by n
decreasing_by omega

/-- The number that digits denote, other units counting as their distance from the digit 0. -/
def digitsValue (t : Text) : Nat := t.foldl (fun n u => 10 * n + u.digitValue) 0

/-- The nearest double. Past 309 digits before the point it is infinite, and below 323 zeros
behind the point it is zero, whatever the digits are. -/
def toFloat (d : Decimal) : Float :=
  if d.digits = 0 then Number.zero d.negative
  else
    let point : Int := digitCount d.digits + d.exponent
    if 309 < point then Number.withSign d.negative Number.infinityBits
    else if point < -323 then Number.zero d.negative
    else
      match d.exponent with
      | .ofNat e => Number.nearest d.negative (d.digits * Nat.pow 10 e) 1
      | .negSucc e => Number.nearest d.negative d.digits (Nat.pow 10 (e + 1))

def point : CodeUnit := 0x2E

def plus : CodeUnit := 0x2B

def minus : CodeUnit := 0x2D

def isSign (u : CodeUnit) : Bool := u == plus || u == minus

def isExponentMark (u : CodeUnit) : Bool := u == 0x65 || u == 0x45

/-- A sign, if one comes first, and the text after it. -/
def takeSign : Text → Bool × Text
  | u :: rest => if isSign u then (u == minus, rest) else (false, u :: rest)
  | [] => (false, [])

/-- The fractional digits after a point, if one comes first, and the text after them. -/
def takeFraction : Text → Text × Text
  | u :: rest =>
    if u == point then (rest.takeWhile CodeUnit.isDigit, rest.dropWhile CodeUnit.isDigit)
    else ([], u :: rest)
  | [] => ([], [])

/-- The exponent after its mark, if one comes first. -/
def readExponent : Text → Int
  | u :: rest =>
    if isExponentMark u then
      let (negative, digits) := takeSign rest
      let magnitude := digitsValue (digits.takeWhile CodeUnit.isDigit)
      if negative then -magnitude else magnitude
    else 0
  | [] => 0

/-- Reads a numeral: an optional sign, digits, optionally a point and more digits, optionally an
exponent. Whatever follows the numeral is not looked at. -/
def read (t : Text) : Decimal :=
  let (negative, t) := takeSign t
  let whole := t.takeWhile CodeUnit.isDigit
  let (fraction, rest) := takeFraction (t.dropWhile CodeUnit.isDigit)
  ⟨negative, digitsValue (whole ++ fraction), readExponent rest - fraction.length⟩

end Decimal

end VirtualChannels

namespace VirtualChannels.Number

/-! ## Shortest decimals

The shortest decimal that reads back as a given double. For one digit, two digits and so on
the two neighbours of the value on that decimal grid are tried; the first grid with a hit
gives the answer, the nearer of two hits, the even one of two equally near. -/

/-- How many digits stand before the point: `n` with `10^(n-1) ≤ value < 10^n`, for a value
above zero in units of 2^-1074. -/
def pointOf (units : Nat) : Int :=
  let whole := units / unitsPerOne
  if 0 < whole then Decimal.digitCount whole
  else 1 - Decimal.digitCount ((unitsPerOne - 1) / units)

/-- A value in units of 2^-1074 as a fraction of `10^exponent`. -/
def onGrid (units : Nat) : Int → Nat × Nat
  | .ofNat e => (units, unitsPerOne * Nat.pow 10 e)
  | .negSucc e => (units * Nat.pow 10 (e + 1), unitsPerOne)

def readsBack (magnitude : Nat) (d : Decimal) : Bool := magnitudeBits d.toFloat == magnitude

/-- The decimal with this many digits that reads back as the magnitude, if there is one. -/
def candidate (magnitude digits : Nat) : Option Decimal :=
  let units := unitsOfBits magnitude
  let exponent := pointOf units - digits
  let (num, den) := onGrid units exponent
  let below : Decimal := ⟨false, num / den, exponent⟩
  let above : Decimal := ⟨false, num / den + 1, exponent⟩
  let rest := 2 * (num % den)
  let nearer := if rest < den || (rest == den && num / den % 2 == 0) then below else above
  let farther := if rest < den || (rest == den && num / den % 2 == 0) then above else below
  if readsBack magnitude nearer then some nearer
  else if readsBack magnitude farther then some farther
  else none

/-- Every unit of 2^-1074 is a whole number of units of 10^-1074. -/
def exactDecimal (magnitude : Nat) : Decimal :=
  ⟨false, unitsOfBits magnitude * Nat.pow 5 depth, -depth⟩

/-- The same number without zeros at the end of its digits. -/
def stripZeros (d : Decimal) : Decimal :=
  if d.digits ≠ 0 ∧ d.digits % 10 = 0 then
    stripZeros ⟨d.negative, d.digits / 10, d.exponent + 1⟩
  else d
termination_by d.digits
decreasing_by omega

/-- The shortest decimal of a magnitude above zero; seventeen digits are always enough. -/
def shortest (magnitude : Nat) : Decimal :=
  stripZeros (((List.range 17).findSome? fun n => candidate magnitude (n + 1)).getD
    (exactDecimal magnitude))

end VirtualChannels.Number

namespace VirtualChannels

/-! ## Numbers as text

The shortest decimal is written positionally while its point lies in the range of the layout and
with an exponent otherwise. -/

/-- Where positional writing ends: the most digits before the point, and the most zeros
between the point and the first digit. -/
structure Layout where
  mostWhole : Nat
  mostZeros : Nat

namespace Layout

/-- Numbers from 10^-6 up to, but not including, 10^21 are written positionally. -/
def standard : Layout := ⟨21, 5⟩

def zeros (n : Nat) : Text := List.replicate n 0x30

def exponentText (e : Int) : Text :=
  (if e < 0 then "e-" else "e+") ++ Decimal.digitText e.natAbs

/-- A decimal without a sign. The point stands `point` digits after the start of the digits. -/
def write (layout : Layout) (d : Decimal) : Text :=
  let digits := Decimal.digitText d.digits
  let point := digits.length + d.exponent
  if digits.length ≤ point && point ≤ layout.mostWhole then digits ++ zeros d.exponent.toNat
  else if 0 < point && point ≤ layout.mostWhole then
    digits.take point.toNat ++ Decimal.point :: digits.drop point.toNat
  else if -(layout.mostZeros : Int) ≤ point && point ≤ 0 then
    0x30 :: Decimal.point :: (zeros (-point).toNat ++ digits)
  else
    let fraction := if digits.length = 1 then [] else Decimal.point :: digits.drop 1
    digits.take 1 ++ fraction ++ exponentText (point - 1)

end Layout

namespace Number

def infinityText : Text := "Infinity"

def notANumberText : Text := "NaN"

/-- The text of a magnitude. -/
def magnitudeText (magnitude : Nat) : Text :=
  if magnitude = 0 then "0"
  else if magnitude < infinityBits then Layout.standard.write (shortest magnitude)
  else if magnitude = infinityBits then infinityText
  else notANumberText

/-- The text of a double; a zero has no sign. -/
def text (x : Float) : Text :=
  let magnitude := magnitudeBits x
  let sign : Text := if isNegative x && 0 < magnitude && magnitude ≤ infinityBits then "-" else ""
  sign ++ magnitudeText magnitude

end Number

end VirtualChannels
