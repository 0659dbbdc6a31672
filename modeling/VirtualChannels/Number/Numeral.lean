import VirtualChannels.Number.Decimal
import VirtualChannels.Text.Basic

/-
  Numerals at the start of a text: digits with an optional point and fraction, or a point and
  digits, then an exponent if it is complete. Their length, and the reading of a text that
  holds one number and nothing else.
-/

namespace VirtualChannels.Numeral

/-- How many digits the text starts with. -/
def digitRun (t : Text) : Nat := (t.takeWhile CodeUnit.isDigit).length

/-- The length of the digits and the point a numeral starts with, or 0. -/
def mantissaLength (t : Text) : Nat :=
  let whole := digitRun t
  match t.drop whole with
  | u :: rest =>
    if u == Decimal.point then
      let fraction := digitRun rest
      if whole = 0 && fraction = 0 then 0 else whole + 1 + fraction
    else whole
  | [] => whole

/-- The length of an exponent mark, its optional sign and its digits, or 0 without digits. -/
def exponentLength : Text → Nat
  | u :: rest =>
    if Decimal.isExponentMark u then
      let sign := if rest.head?.any Decimal.isSign then 1 else 0
      let digits := digitRun (rest.drop sign)
      if digits = 0 then 0 else 1 + sign + digits
    else 0
  | [] => 0

/-- The length of the longest numeral that the text starts with, or 0. -/
def length (t : Text) : Nat :=
  let mantissa := mantissaLength t
  if mantissa = 0 then 0 else mantissa + exponentLength (t.drop mantissa)

/-- The text from an offset on, one below zero counting back from the end. -/
def textFrom (t : Text) : Int → Text
  | .ofNat n => t.drop n
  | .negSucc n => t.drop (t.length - (n + 1))

/-- The length of the numeral that starts at an offset, or 0. -/
def lengthAt (t : Text) (start : Int) : Nat := length (textFrom t start)

theorem digitRun_le (t : Text) : digitRun t ≤ t.length := by
  induction t with
  | nil => simp [digitRun]
  | cons u t ih =>
    by_cases h : u.isDigit
    · simpa [digitRun, h] using ih
    · simp [digitRun, h]

theorem mantissaLength_le (t : Text) : mantissaLength t ≤ t.length := by
  unfold mantissaLength
  have h := digitRun_le t
  dsimp only
  split
  · rename_i u rest e
    have hl : (t.drop (digitRun t)).length = rest.length + 1 := by rw [e]; rfl
    have hr := digitRun_le rest
    rw [List.length_drop] at hl
    split
    · split <;> omega
    · omega
  · exact h

theorem exponentLength_le (t : Text) : exponentLength t ≤ t.length := by
  cases t with
  | nil => simp [exponentLength]
  | cons u rest =>
    simp only [exponentLength]
    split
    · generalize hs : (if rest.head?.any Decimal.isSign then 1 else 0) = sign
      have h := digitRun_le (rest.drop sign)
      rw [List.length_drop] at h
      have hsign : sign ≤ rest.length := by
        cases rest with
        | nil => simp at hs; omega
        | cons v rest => rw [← hs]; split <;> simp
      simp only [List.length_cons]
      split <;> omega
    · simp

theorem length_le (t : Text) : length t ≤ t.length := by
  unfold length
  have h := mantissaLength_le t
  have h' := exponentLength_le (t.drop (mantissaLength t))
  rw [List.length_drop] at h'
  dsimp only
  split <;> omega

end VirtualChannels.Numeral

namespace VirtualChannels.Number

/-! ## Texts that hold one number

Blanks around it do not count, an empty text is zero. Decimal numerals and the word for infinity
may carry a sign, numbers in base 16, 8 or 2 may not. -/

/-- The value of a digit in bases up to 16, if the unit is one. -/
def baseDigit? (u : CodeUnit) : Option Nat :=
  if u.isDigit then some u.digitValue
  else if 0x61 ≤ u && u ≤ 0x66 then some (u.toNat - 0x61 + 10)
  else if 0x41 ≤ u && u ≤ 0x46 then some (u.toNat - 0x41 + 10)
  else none

/-- The digits of a base as a number, if there is one at least and each lies below the base. -/
def inBase? (base : Nat) (digits : Text) : Option Nat :=
  if digits = [] then none
  else digits.foldlM (fun n u =>
    (baseDigit? u).bind fun d => if d < base then some (base * n + d) else none) 0

/-- The base that a letter after a leading zero names. -/
def baseOf? (u : CodeUnit) : Option Nat :=
  if u == 0x78 || u == 0x58 then some 16
  else if u == 0x6F || u == 0x4F then some 8
  else if u == 0x62 || u == 0x42 then some 2
  else none

def readSigned? (t : Text) : Option Float :=
  let (negative, magnitude) := Decimal.takeSign t
  if magnitude = infinityText then some (withSign negative infinityBits)
  else if magnitude ≠ [] ∧ Numeral.length magnitude = magnitude.length then
    some (Decimal.read t).toFloat
  else none

/-- The number a text holds, if it holds one. -/
def read? (t : Text) : Option Float :=
  match t.trim with
  | [] => some (zero false)
  | u :: v :: digits =>
    match if u == 0x30 then baseOf? v else none with
    | some base => (inBase? base digits).map fun n => nearest false n 1
    | none => readSigned? (u :: v :: digits)
  | t => readSigned? t

end VirtualChannels.Number
