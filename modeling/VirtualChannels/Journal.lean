import VirtualChannels.Json.Value
import VirtualChannels.Number.Decimal

/-
  The journal: one line of JSON per entry, with the time at which it was written.
-/

namespace VirtualChannels

/-! ## Points in time

They are counted in milliseconds since the start of 1970: which of them dates reach, their text as
a date and a time of day, and the seconds since then. -/

/-- Milliseconds since the start of 1970. -/
structure Instant where
  milliseconds : Int

namespace Instant

/-- How many milliseconds dates reach to either side of the start of 1970. -/
def dateReach : Nat := 8640000000000000

/-- Whether the instant is one that dates reach. -/
def hasDate (i : Instant) : Bool := i.milliseconds.natAbs ≤ dateReach

/-- The seconds since the start of 1970 cut off toward zero; before it even a zero is negative.
An instant without a date has no such number. -/
def seconds (i : Instant) : Float :=
  if i.hasDate then Number.nearest (i.milliseconds < 0) (i.milliseconds.natAbs / 1000) 1
  else Number.notANumber

structure Date where
  year : Int
  month : Nat
  day : Nat

/-- The date of a day counted from the start of 1970. Years are counted from March, so that a
leap day is the last of its year, and 400 years have 146097 days. -/
def dateOfDay (day : Int) : Date :=
  let shifted := day + 719468
  let era := shifted.fdiv 146097
  let dayOfEra := (shifted.fmod 146097).toNat
  let yearOfEra := (dayOfEra - dayOfEra / 1460 + dayOfEra / 36524 - dayOfEra / 146096) / 365
  let dayOfYear := dayOfEra - (365 * yearOfEra + yearOfEra / 4 - yearOfEra / 100)
  let marchMonth := (5 * dayOfYear + 2) / 153
  let month := if marchMonth < 10 then marchMonth + 3 else marchMonth - 9
  { year := yearOfEra + era * 400 + if month ≤ 2 then 1 else 0
    month
    day := dayOfYear - (153 * marchMonth + 2) / 5 + 1 }

/-- A number with zeros in front up to a width. -/
def padded (width n : Nat) : Text :=
  let digits := Decimal.digitText n
  List.replicate (width - digits.length) 0x30 ++ digits

/-- Years past four digits or before year 0 have six digits and a sign. -/
def yearText (year : Int) : Text :=
  if 0 ≤ year && year ≤ 9999 then padded 4 year.toNat
  else (if year < 0 then Decimal.minus else Decimal.plus) :: padded 6 year.natAbs

/-- The date and the time of day, down to milliseconds, in universal time. -/
def text (i : Instant) : Text :=
  let date := dateOfDay (i.milliseconds.fdiv 86400000)
  let time := (i.milliseconds.fmod 86400000).toNat
  Text.join [yearText date.year, "-", padded 2 date.month, "-", padded 2 date.day, "T",
    padded 2 (time / 3600000), ":", padded 2 (time / 60000 % 60), ":",
    padded 2 (time / 1000 % 60), ".", padded 3 (time % 1000), "Z"]

end Instant

end VirtualChannels

namespace VirtualChannels.Journal

/-! ## Entries

A writer has a context, which its entries carry and which more specific contexts override; entries
for developers are written in development only. -/

inductive Level where
  | info | warn | error | debug
  deriving DecidableEq

namespace Level

def name : Level → Text
  | info => "info"
  | warn => "warn"
  | error => "error"
  | debug => "debug"

/-- The channel of the console that the lines of a level go to. -/
def stream : Level → Text
  | info => "log"
  | warn => "warn"
  | error => "error"
  | debug => "log"

end Level

structure Context where
  service : Option Json.Value := none
  operation : Option Json.Value := none
  templateId : Option Json.Value := none
  duration : Option Json.Value := none

namespace Context

/-- The first context where it says something, else the second. -/
def overriding (specific general : Context) : Context where
  service := specific.service <|> general.service
  operation := specific.operation <|> general.operation
  templateId := specific.templateId <|> general.templateId
  duration := specific.duration <|> general.duration

/-- The fields that an entry carries; all but the duration are left out when they are nothing. -/
def fields (c : Context) : List (Text × Json.Value) :=
  let present (v : Option Json.Value) : Option Json.Value := v.filter fun v => !v.isNothing
  List.flatten
    [Json.Value.optionalField "service" (present c.service),
      Json.Value.optionalField "operation" (present c.operation),
      Json.Value.optionalField "templateId" (present c.templateId),
      Json.Value.optionalField "duration" c.duration]

end Context

/-- Why something cannot be told: it has no text, or the time has no date. -/
inductive Untold where
  | noText | noDate

def Untold.message : Untold → Text
  | noText => "Cannot convert object to primitive value"
  | noDate => "Invalid time value"

/-- What went wrong, as an entry shows it. -/
structure Failure where
  name : Text := "Error"
  message : Text

namespace Failure

/-- Any value that is not nothing may be reported, under the general name, if it has a text. -/
def ofValue (v : Json.Value) : Except Untold (Option Failure) :=
  if v.isNothing then .ok none
  else
    match v.plain? with
    | some message => .ok (some { message })
    | none => .error .noText

def toJson (f : Failure) : Json.Value :=
  .object [("name", .text f.name), ("message", .text f.message)]

end Failure

structure Entry where
  level : Level
  message : Text
  context : Context := {}
  data : Option Json.Value := none
  failure : Option Failure := none

namespace Entry

def toJson (e : Entry) (now : Instant) : Json.Value :=
  .object (List.flatten
    [Json.Value.optionalField "level" (some (.text e.level.name)),
      Json.Value.optionalField "message" (some (.text e.message)),
      Json.Value.optionalField "timestamp" (some (.text now.text)),
      e.context.fields,
      Json.Value.optionalField "data" e.data,
      Json.Value.optionalField "error" (e.failure.map Failure.toJson)])

/-- The line of an entry. -/
def line (e : Entry) (now : Instant) : Text := (e.toJson now).compact

end Entry

/-- The entries with the channels that they go to, told at a time. -/
def tell (now : Instant) (entries : List Entry) : Except Untold (List (Text × Json.Value)) :=
  if !entries.isEmpty && !now.hasDate then .error .noDate
  else .ok (entries.map fun e => (e.level.stream, e.toJson now))

structure Writer where
  context : Context := {}
  development : Bool := false

namespace Writer

/-- A writer whose own context overrides that of this one. -/
def child (w : Writer) (context : Context) : Writer :=
  { w with context := context.overriding w.context }

/-- The entries that come of one call: one, or none outside development. -/
def write (w : Writer) (e : Entry) : List Entry :=
  if e.level = .debug && !w.development then []
  else [{ e with context := e.context.overriding w.context }]

end Writer

end VirtualChannels.Journal
