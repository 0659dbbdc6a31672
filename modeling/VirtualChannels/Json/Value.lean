import VirtualChannels.Assignment
import VirtualChannels.Number.Decimal

/-
  JSON values and their texts. Numbers are doubles, strings may hold surrogates that stand alone,
  and an object has its fields in order, each name once.
-/

namespace VirtualChannels.Json

inductive Value where
  | null
  | bool (b : Bool)
  | number (x : Float)
  | text (t : Text)
  | array (items : List Value)
  | object (fields : List (Text × Value))

namespace Value

/-- The field of an object under a name. -/
def field? (name : Text) : Value → Option Value
  | .object fields => fields.lookup name
  | _ => none

def text? : Value → Option Text
  | .text t => some t
  | _ => none

def number? : Value → Option Float
  | .number x => some x
  | _ => none

def array? : Value → Option (List Value)
  | .array items => some items
  | _ => none

def object? : Value → Option (List (Text × Value))
  | .object fields => some fields
  | _ => none

/-- The fields of an object that has a field only where there is a value for it. -/
def optionalField (name : Text) : Option Value → List (Text × Value)
  | some v => [(name, v)]
  | none => []

/-- The word for the kind of value in messages. -/
def kind : Value → Text
  | .null => "null"
  | .bool _ => "boolean"
  | .number x => if x.isNaN then "nan" else "number"
  | .text _ => "string"
  | .array _ => "array"
  | .object _ => "object"

/-- Null, false, zero, no number and the empty text count as nothing. -/
def isNothing : Value → Bool
  | .null => true
  | .bool b => !b
  | .number x => Number.isZero x || x.isNaN
  | .text t => t.isEmpty
  | .array _ => false
  | .object _ => false

mutual

/-- A value in running text: an array is its items between commas, where a null is empty. An
object with a field `toString` has no such text, since the field stands in its way. -/
def plain? : Value → Option Text
  | .null => some "null"
  | .bool b => some (if b then "true" else "false")
  | .number x => some (Number.text x)
  | .text t => some t
  | .array items => (plainItems? items).map (Text.joinWith [0x2C])
  | .object fields =>
    if (fields.lookup (Text.ofString "toString")).isSome then none else some "[object Object]"

def plainItems? : List Value → Option (List Text)
  | [] => some []
  | .null :: rest => (plainItems? rest).map ([] :: ·)
  | v :: rest =>
    match plain? v, plainItems? rest with
    | some t, some ts => some (t :: ts)
    | _, _ => none

end

end Value

/-! ## Writing

JSON values as text, on one line or with every item and field on a line of its own. A
number that is not finite is written as null, and a surrogate that stands alone as an escape. -/

def quotationMark : CodeUnit := 0x22

def backslash : CodeUnit := 0x5C

def comma : CodeUnit := 0x2C

def colon : CodeUnit := 0x3A

def openBracket : CodeUnit := 0x5B

def closeBracket : CodeUnit := 0x5D

def openBrace : CodeUnit := 0x7B

def closeBrace : CodeUnit := 0x7D

def hexDigit (n : Nat) : CodeUnit := (if n < 10 then 0x30 + n else 0x57 + n).toUInt16

/-- The escape of a unit by its number, four digits in base 16. -/
def numberEscape (u : CodeUnit) : Text :=
  let n := u.toNat
  [backslash, 0x75, hexDigit (n / 0x1000), hexDigit (n / 0x100 % 0x10), hexDigit (n / 0x10 % 0x10),
    hexDigit (n % 0x10)]

/-- A unit that is no part of a surrogate pair, within quotation marks. -/
def writeUnit (u : CodeUnit) : Text :=
  if u == quotationMark || u == backslash then [backslash, u]
  else if u == 0x08 then [backslash, 0x62]
  else if u == 0x09 then [backslash, 0x74]
  else if u == 0x0A then [backslash, 0x6E]
  else if u == 0x0C then [backslash, 0x66]
  else if u == 0x0D then [backslash, 0x72]
  else if u < 0x20 || u.isHighSurrogate || u.isLowSurrogate then numberEscape u
  else [u]

def writeUnits : Text → Text
  | [] => []
  | [u] => writeUnit u
  | u :: v :: rest =>
    if u.isHighSurrogate && v.isLowSurrogate then u :: v :: writeUnits rest
    else writeUnit u ++ writeUnits (v :: rest)

def writeText (t : Text) : Text := quotationMark :: (writeUnits t ++ [quotationMark])

def writeNumber (x : Float) : Text := if Number.isFinite x then Number.text x else "null"

/-- What stands before an item at a depth: nothing on one line, else a new line and its blanks. -/
def lineStart (indent depth : Nat) : Text :=
  if indent = 0 then [] else 0x0A :: List.replicate (indent * depth) 0x20

def afterColon (indent : Nat) : Text := if indent = 0 then [] else [0x20]

namespace Value

mutual

/-- The text of a value that stands at a depth; an indent of zero writes one line. -/
def write (indent depth : Nat) : Value → Text
  | .null => "null"
  | .bool b => if b then "true" else "false"
  | .number x => writeNumber x
  | .text t => writeText t
  | .array [] => [openBracket, closeBracket]
  | .array (v :: rest) =>
    openBracket :: (lineStart indent (depth + 1) ++ write indent (depth + 1) v
      ++ writeItems indent (depth + 1) rest ++ lineStart indent depth ++ [closeBracket])
  | .object [] => [openBrace, closeBrace]
  | .object ((name, v) :: rest) =>
    openBrace :: (lineStart indent (depth + 1) ++ writeText name ++ colon :: (afterColon indent
      ++ write indent (depth + 1) v ++ writeFields indent (depth + 1) rest
      ++ lineStart indent depth ++ [closeBrace]))

def writeItems (indent depth : Nat) : List Value → Text
  | [] => []
  | v :: rest =>
    comma :: (lineStart indent depth ++ write indent depth v ++ writeItems indent depth rest)

def writeFields (indent depth : Nat) : List (Text × Value) → Text
  | [] => []
  | (name, v) :: rest =>
    comma :: (lineStart indent depth ++ writeText name ++ colon :: (afterColon indent
      ++ write indent depth v ++ writeFields indent depth rest))

end

def compact (v : Value) : Text := v.write 0 0

/-- Two blanks for every depth. -/
def pretty (v : Value) : Text := v.write 2 0

end Value

end VirtualChannels.Json
