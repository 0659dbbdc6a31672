import VirtualChannels.Json.Value
import VirtualChannels.Number.Decimal
import VirtualChannels.Number.Numeral

/-
  Reading JSON. A text either holds a value or has a fault, which says where reading stopped and
  what was missing there.
-/

namespace VirtualChannels.Json

/-! ## Faults

Why a text holds no JSON value. The message says what is missing and at which line and
column, or shows the unit nobody expected with the text around it. -/

inductive Cause where
  | unexpectedEnd
  | unexpectedUnit (u : CodeUnit)
  | unexpectedNumber
  | unexpectedText
  | noDigitAfterMinus
  | noDigitAfterPoint
  | noDigitInExponent
  | openText
  | controlInText
  | unknownEscape
  | badNumberEscape
  | noNameOrBrace
  | noName
  | noColon
  | noCommaOrBrace
  | noCommaOrBracket
  | moreAfterValue

/-- A cause, with what is left of the text from the place where it shows. -/
structure Fault where
  cause : Cause
  rest : Text

namespace Cause

/-- What is wrong at a place. -/
def words : Cause → Text
  | unexpectedEnd | unexpectedUnit _ => []
  | unexpectedNumber => "Unexpected number in JSON"
  | unexpectedText => "Unexpected string in JSON"
  | noDigitAfterMinus => "No number after minus sign in JSON"
  | noDigitAfterPoint => "Unterminated fractional number in JSON"
  | noDigitInExponent => "Exponent part is missing a number in JSON"
  | openText => "Unterminated string in JSON"
  | controlInText => "Bad control character in string literal in JSON"
  | unknownEscape => "Bad escaped character in JSON"
  | badNumberEscape => "Bad Unicode escape in JSON"
  | noNameOrBrace => "Expected property name or '\x7d' in JSON"
  | noName => "Expected double-quoted property name in JSON"
  | noColon => "Expected ':' after property name in JSON"
  | noCommaOrBrace => "Expected ',' or '\x7d' after property value in JSON"
  | noCommaOrBracket => "Expected ',' or ']' after array element in JSON"
  | moreAfterValue => "Unexpected non-whitespace character after JSON"

end Cause

/-- The line and the column after a text, counted on from others. A return and a line feed end
a line, and so do both together. -/
def placeAfter (line column : Nat) : Text → Nat × Nat
  | [] => (line, column)
  | u :: rest =>
    if u == 0x0A || (u == 0x0D && rest.head? != some 0x0A) then placeAfter (line + 1) 1 rest
    else placeAfter line (column + 1) rest

/-- How many units are shown on either side of an unexpected one. -/
def shownAround : Nat := 10

/-- A short text as a whole, else the part around a position. -/
def excerpt (source : Text) (position : Nat) : Text :=
  if source.length ≤ 2 * shownAround then Text.quoted source
  else
    let shown := (source.take (position + shownAround)).drop (position - shownAround)
    Text.join [if shownAround ≤ position then "..." else [], Text.quoted shown,
      if position + shownAround < source.length then "..." else []]

namespace Fault

/-- What nobody expected at the start of a text. -/
def unexpected (rest : Text) : Fault :=
  match rest with
  | [] => ⟨.unexpectedEnd, rest⟩
  | u :: _ =>
    if u.isDigit || u == Decimal.minus then ⟨.unexpectedNumber, rest⟩
    else if u == 0x22 then ⟨.unexpectedText, rest⟩
    else ⟨.unexpectedUnit u, rest⟩

/-- Where in the whole text a fault shows. -/
def position (source : Text) (f : Fault) : Nat := source.length - f.rest.length

def message (source : Text) (f : Fault) : Text :=
  let position := f.position source
  match f.cause with
  | .unexpectedEnd => "Unexpected end of JSON input"
  | .unexpectedUnit u =>
    Text.join ["Unexpected token '", [u], "', ", excerpt source position, " is not valid JSON"]
  | cause =>
    let (line, column) := placeAfter 1 1 (source.take position)
    Text.join [cause.words, " at position ", Decimal.digitText position, " (line ",
      Decimal.digitText line, " column ", Decimal.digitText column, ")"]

end Fault

/-! ## Readers

Each reader takes what it reads from the start of the text and returns the rest, which is
shorter, or says what is wrong and where. The last of several fields of one name counts. -/

/-- What is left of a text after something was read from its start. -/
abbrev Rest (t : Text) := { rest : Text // rest.length < t.length }

/-- Something read from the start of a text, and what is left of it. -/
abbrev Reading (t : Text) (α : Type) := Except Fault (α × Rest t)

def isBlank (u : CodeUnit) : Bool := u == 0x20 || u == 0x0A || u == 0x0D || u == 0x09

def skipBlanks (t : Text) : Text := t.dropWhile isBlank

theorem length_skipBlanks_le (t : Text) : (skipBlanks t).length ≤ t.length := by
  induction t with
  | nil => simp [skipBlanks]
  | cons u t ih =>
    by_cases h : isBlank u
    · simpa [skipBlanks, h] using Nat.le_succ_of_le ih
    · simp [skipBlanks, h]

/-- What follows a unit that comes next, blanks left out. -/
def expect (u : CodeUnit) (t : Text) : Option (Rest t) :=
  match h : skipBlanks t with
  | v :: rest =>
    if v = u then
      some ⟨rest, by have := length_skipBlanks_le t; rw [h] at this; exact this⟩
    else none
  | [] => none

/-- What is left of a text after the units, at least one, of something that follows its blanks. -/
def behind (t : Text) (u : CodeUnit) (rest : Text) (h : skipBlanks t = u :: rest) (length : Nat) :
    Rest t :=
  ⟨rest.drop (length - 1), by
    have := length_skipBlanks_le t
    rw [h, List.length_cons] at this
    rw [List.length_drop]
    omega⟩

/-- What follows a word that comes next, blanks left out. -/
def expectWord (word : Text) (t : Text) : Option (Rest t) :=
  match h : skipBlanks t with
  | u :: rest => if word.isPrefixOf (u :: rest) then some (behind t u rest h word.length) else none
  | [] => none

/-- What is left of a text where it stops to agree with a word. -/
def afterAgreement : Text → Text → Text
  | w :: word, u :: rest => if u = w then afterAgreement word rest else u :: rest
  | _, rest => rest

/-- The unit of four digits in base 16. -/
def fourDigits? (t : Text) : Option CodeUnit :=
  if t.length = 4 then (Number.inBase? 16 t).map Nat.toUInt16 else none

/-- The unit that an escape of one unit stands for. -/
def escapedUnit? (u : CodeUnit) : Option CodeUnit :=
  if u == quotationMark || u == backslash || u == 0x2F then some u
  else if u == 0x62 then some 0x08
  else if u == 0x66 then some 0x0C
  else if u == 0x6E then some 0x0A
  else if u == 0x72 then some 0x0D
  else if u == 0x74 then some 0x09
  else none

/-- What follows the digits in base 16 a text starts with, of which at most four count. -/
def afterDigits (t : Text) : Text :=
  t.drop ((t.take 4).takeWhile fun u => (Number.inBase? 16 [u]).isSome).length

/-- The unit that an escape stands for, after its backslash. -/
def readEscape (t : Text) : Reading t CodeUnit :=
  match t with
  | [] => .error ⟨.openText, []⟩
  | u :: rest =>
    if u == 0x75 then
      match fourDigits? (rest.take 4) with
      | some v =>
        .ok (v, ⟨rest.drop 4, Nat.lt_succ_of_le (by rw [List.length_drop]; exact Nat.sub_le _ _)⟩)
      | none => .error ⟨.badNumberEscape, afterDigits rest⟩
    else
      match escapedUnit? u with
      | some v => .ok (v, ⟨rest, Nat.lt_succ_self _⟩)
      | none => .error ⟨.unknownEscape, u :: rest⟩

/-- A text after its opening quotation mark. -/
def readText (t : Text) : Reading t Text :=
  match t with
  | [] => .error ⟨.openText, []⟩
  | u :: rest =>
    if u == quotationMark then .ok ([], ⟨rest, by simp⟩)
    else if u < 0x20 then .error ⟨.controlInText, u :: rest⟩
    else if u == backslash then
      match readEscape rest with
      | .error e => .error e
      | .ok (v, ⟨after, h⟩) =>
        match readText after with
        | .error e => .error e
        | .ok (vs, ⟨last, h'⟩) => .ok (v :: vs, ⟨last, by simp only [List.length_cons]; omega⟩)
    else
      match readText rest with
      | .error e => .error e
      | .ok (vs, ⟨last, h'⟩) => .ok (u :: vs, ⟨last, by simp only [List.length_cons]; omega⟩)
termination_by t.length
decreasing_by all_goals simp_all only [List.length_cons]; omega

/-- The length of the digits a text starts with, of which there has to be one. -/
def someDigits (cause : Cause) (t : Text) : Except Fault Nat :=
  let digits := Numeral.digitRun t
  if digits = 0 then .error ⟨cause, t⟩ else .ok digits

/-- The length of the whole digits: a zero alone, or digits that do not begin with one. -/
def wholeLength (t : Text) : Except Fault Nat :=
  match someDigits .noDigitAfterMinus t with
  | .error e => .error e
  | .ok digits =>
    if t.head? == some 0x30 && digits ≠ 1 then .error ⟨.unexpectedNumber, t.drop 1⟩
    else .ok digits

/-- The length of a point and the digits after it, or 0 without a point. -/
def fractionLength : Text → Except Fault Nat
  | u :: rest =>
    if u == Decimal.point then (someDigits .noDigitAfterPoint rest).map (1 + ·) else .ok 0
  | [] => .ok 0

/-- The length of an exponent mark, its optional sign and its digits, or 0 without a mark. -/
def exponentLength : Text → Except Fault Nat
  | u :: rest =>
    if Decimal.isExponentMark u then
      let sign := if rest.head?.any Decimal.isSign then 1 else 0
      (someDigits .noDigitInExponent (rest.drop sign)).map (1 + sign + ·)
    else .ok 0
  | [] => .ok 0

/-- The length of the number that the text starts with. -/
def numberLength (t : Text) : Except Fault Nat := do
  let sign := if t.head? == some Decimal.minus then 1 else 0
  let whole ← wholeLength (t.drop sign)
  let fraction ← fractionLength (t.drop (sign + whole))
  let exponent ← exponentLength (t.drop (sign + whole + fraction))
  return sign + whole + fraction + exponent

def readNumber (t : Text) : Reading t Float :=
  match h : skipBlanks t with
  | u :: rest =>
    match numberLength (u :: rest) with
    | .ok length =>
      .ok ((Decimal.read ((u :: rest).take length)).toFloat, behind t u rest h length)
    | .error e => .error e
  | [] => .error (.unexpected [])

/-- What is wrong with a text that starts with no value: it may start like one of the words. -/
def valueFault (start : Text) : Fault :=
  match [("null" : Text), "true", "false"].find? fun word => word.head? == start.head? with
  | some word => .unexpected (afterAgreement word start)
  | none => .unexpected start

/-- Whether a number starts with the unit. -/
def startsNumber (u : CodeUnit) : Bool := u.isDigit || u == Decimal.minus

/-- A value without parts. -/
def readScalar (t : Text) : Reading t Value :=
  match expectWord "null" t with
  | some rest => .ok (.null, rest)
  | none =>
    match expectWord "true" t with
    | some rest => .ok (.bool true, rest)
    | none =>
      match expectWord "false" t with
      | some rest => .ok (.bool false, rest)
      | none =>
        if (skipBlanks t).head?.any startsNumber then
          (readNumber t).map fun (x, rest) => (.number x, rest)
        else .error (valueFault (skipBlanks t))

mutual

def readValue (t : Text) : Reading t Value :=
  match expect openBracket t with
  | some ⟨rest, h⟩ =>
    match expect closeBracket rest with
    | some ⟨after, h'⟩ => .ok (.array [], ⟨after, by omega⟩)
    | none =>
      match readItems rest with
      | .ok (items, ⟨after, h'⟩) => .ok (.array items, ⟨after, by omega⟩)
      | .error e => .error e
  | none =>
    match expect openBrace t with
    | some ⟨rest, h⟩ =>
      match expect closeBrace rest with
      | some ⟨after, h'⟩ => .ok (.object [], ⟨after, by omega⟩)
      | none =>
        match readFields .noNameOrBrace rest with
        | .ok (fields, ⟨after, h'⟩) =>
          .ok (.object (Assignment.ofPairs fields), ⟨after, by omega⟩)
        | .error e => .error e
    | none =>
      match expect quotationMark t with
      | some ⟨rest, h⟩ =>
        match readText rest with
        | .ok (s, ⟨after, h'⟩) => .ok (.text s, ⟨after, by omega⟩)
        | .error e => .error e
      | none => readScalar t
termination_by 2 * t.length

/-- The items of an array that has some, up to and with its closing bracket. -/
def readItems (t : Text) : Reading t (List Value) :=
  match readValue t with
  | .error e => .error e
  | .ok (v, ⟨rest, h⟩) =>
    match expect comma rest with
    | some ⟨next, h'⟩ =>
      match readItems next with
      | .ok (vs, ⟨after, h''⟩) => .ok (v :: vs, ⟨after, by omega⟩)
      | .error e => .error e
    | none =>
      match expect closeBracket rest with
      | some ⟨after, h'⟩ => .ok ([v], ⟨after, by omega⟩)
      | none => .error ⟨.noCommaOrBracket, skipBlanks rest⟩
termination_by 2 * t.length + 1

/-- The fields of an object that has some, up to and with its closing brace. The cause is that
of a text without the name of the first. -/
def readFields (cause : Cause) (t : Text) : Reading t (List (Text × Value)) :=
  match expect quotationMark t with
  | none => .error ⟨cause, skipBlanks t⟩
  | some ⟨start, h₀⟩ =>
    match readText start with
    | .error e => .error e
    | .ok (name, ⟨afterName, h₁⟩) =>
      match expect colon afterName with
      | none => .error ⟨.noColon, skipBlanks afterName⟩
      | some ⟨valueStart, h₂⟩ =>
        match readValue valueStart with
        | .error e => .error e
        | .ok (v, ⟨rest, h₃⟩) =>
          match expect comma rest with
          | some ⟨next, h₄⟩ =>
            match readFields .noName next with
            | .ok (fields, ⟨after, h₅⟩) => .ok ((name, v) :: fields, ⟨after, by omega⟩)
            | .error e => .error e
          | none =>
            match expect closeBrace rest with
            | some ⟨after, h₄⟩ => .ok ([(name, v)], ⟨after, by omega⟩)
            | none => .error ⟨.noCommaOrBrace, skipBlanks rest⟩
termination_by 2 * t.length + 1

end

/-- The value a text holds, if it holds one and nothing but blanks around it. -/
def parse (t : Text) : Except Fault Value :=
  match readValue t with
  | .error e => .error e
  | .ok (v, ⟨rest, _⟩) =>
    if skipBlanks rest = [] then .ok v else .error ⟨.moreAfterValue, skipBlanks rest⟩

end VirtualChannels.Json
