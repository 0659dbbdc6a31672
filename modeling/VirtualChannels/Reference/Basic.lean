import VirtualChannels.Formula.Builtin
import VirtualChannels.Number.Numeral

/-
  References: what a formula reads from a recording, either one sample of a channel, possibly
  shifted, or a statistic of the whole channel.
-/

namespace VirtualChannels

/-! ## Shifts

Which row a reference reads, relative to the row that is evaluated. A shift is written behind a
name, as a number of rows in brackets or as seconds between `@` and `s`. -/

/-- A number of rows with a direction; zero rows backward are told apart from zero forward. -/
structure RowOffset where
  backward : Bool
  rows : Nat

namespace RowOffset

def toInt (o : RowOffset) : Int := if o.backward then -o.rows else o.rows

/-- Offsets that fit a signed 32-bit number. -/
def inRange (o : RowOffset) : Bool := o.rows ≤ if o.backward then 2147483648 else 2147483647

end RowOffset

inductive Shift where
  | none
  | rows (offset : RowOffset)
  | seconds (s : Float)

namespace Shift

/-- The shift of a text that holds a whole number of rows within the range, else none. -/
def ofRowText (t : Text) : Shift :=
  match Number.read? t with
  | some x =>
    let offset : RowOffset := ⟨Number.isNegative x, Number.wholeUnits x⟩
    if Number.isWhole x && offset.inRange then rows offset else none
  | Option.none => none

/-- The shift of a text that holds a finite number of seconds, else none. -/
def ofSecondsText (t : Text) : Shift :=
  match Number.read? t with
  | some x => if Number.isFinite x then seconds x else none
  | Option.none => none

/-- Rows take precedence over seconds. -/
def ofTexts : Option Text → Option Text → Shift
  | some t, _ => ofRowText t
  | Option.none, some t => ofSecondsText t
  | Option.none, Option.none => none

def openBracket : CodeUnit := 0x5B

def closeBracket : CodeUnit := 0x5D

def atSign : CodeUnit := 0x40

def secondsMark : CodeUnit := 0x73

/-- The length of an optional sign and the digits after it, or 0 without digits. -/
def signedDigits (t : Text) : Nat :=
  let sign := if t.head?.any Decimal.isSign then 1 else 0
  let digits := Numeral.digitRun (t.drop sign)
  if digits = 0 then 0 else sign + digits

/-- The length of a point and the digits after it, or 0 without a point. -/
def pointAndDigits : Text → Nat
  | u :: rest => if u == Decimal.point then 1 + Numeral.digitRun rest else 0
  | [] => 0

/-- The number between brackets at the start of a text. -/
def rowText? : Text → Option Text
  | u :: rest =>
    let length := signedDigits rest
    if u == openBracket && length ≠ 0 && (rest.drop length).head? == some closeBracket then
      some (rest.take length)
    else Option.none
  | [] => Option.none

/-- The number between `@` and `s` at the start of a text. -/
def secondsText? : Text → Option Text
  | u :: rest =>
    let whole := signedDigits rest
    let length := whole + pointAndDigits (rest.drop whole)
    if u == atSign && whole ≠ 0 && (rest.drop length).head? == some secondsMark then
      some (rest.take length)
    else Option.none
  | [] => Option.none

/-- The suffix at the start of a text: its length, 0 if there is none, and its shift. -/
structure Suffix where
  length : Nat
  shift : Shift

def suffix (t : Text) : Suffix :=
  match rowText? t with
  | some number => ⟨number.length + 2, ofRowText number⟩
  | Option.none =>
    match secondsText? t with
    | some number => ⟨number.length + 2, ofSecondsText number⟩
    | Option.none => ⟨0, none⟩

end Shift

/-! ## References -/

/-- `other` is a statistic that nobody computes; a reference to one reads samples after all. -/
inductive Statistic where
  | mean | stdev | min | max | range
  | other (name : Text)
  deriving DecidableEq

namespace Statistic

/-- The statistics that are computed. -/
def all : List Statistic := [mean, stdev, min, max, range]

def name : Statistic → Text
  | mean => "mean"
  | stdev => "stdev"
  | min => "min"
  | max => "max"
  | range => "range"
  | other name => name

/-- The statistic of a name. -/
def named (name : Text) : Statistic := (all.find? fun s => s.name == name).getD (other name)

end Statistic

/-- `matched` is the text in the formula, with its quotation marks and suffix. -/
structure Reference where
  name : Text
  shift : Shift
  matched : Text
  statistic : Option Statistic := none

/-- Which identifiers stand for no channel, given in lower case, and which beginnings of an
identifier ask for a statistic of the channel that the rest names. -/
structure ScanOptions where
  reserved : List Text := Formula.builtinNames
  statistics : List (Text × Statistic) :=
    Statistic.all.map fun s => (Text.join ["_", s.name, "_"], s)

namespace ScanOptions

def isReserved (o : ScanOptions) (identifier : Text) : Bool :=
  o.reserved.contains identifier.lowerAscii

/-- The first beginning that the identifier has and that is not all of it: its statistic and
the name that follows. -/
def statistic? (o : ScanOptions) (identifier : Text) : Option (Statistic × Text) :=
  (o.statistics.find? fun p =>
    p.1.isPrefixOf identifier && p.1.length < identifier.length).map fun p =>
      (p.2, identifier.drop p.1.length)

end ScanOptions

end VirtualChannels
