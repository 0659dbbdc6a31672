import VirtualChannels.Assignment
import VirtualChannels.Formula.Parser
import VirtualChannels.Recording.Summary
import VirtualChannels.Reference.Scan
import VirtualChannels.Text.Lowercase

/-
  Recordings: named channels as the columns of a table with one time per row. Names are bound
  to columns without regard to letter case. And what can be wrong with a whole formula.
-/

namespace VirtualChannels

structure Recording where
  channels : List Text
  data : Table Float
  times : Array Float
  units : List Text := []

/-- The columns that names are bound to. -/
abbrev Bindings := Assignment Nat

inductive FormulaFault where
  | emptyFormula
  | unknownChannels (missing : List Text)
  | channelNotFound (name : Text)
  | channelNotBound (name : Text)
  | parse (e : Formula.ParseError)
  | evaluation (e : Formula.EvalError)
  | cancelled

namespace FormulaFault

def kind : FormulaFault → Text
  | emptyFormula => "empty_formula"
  | unknownChannels _ => "unknown_channels"
  | channelNotFound _ => "binding_error"
  | channelNotBound _ => "binding_error"
  | parse _ => "syntax_error"
  | evaluation _ => "syntax_error"
  | cancelled => "cancelled"

def message : FormulaFault → Text
  | emptyFormula => "Formula cannot be empty"
  | unknownChannels missing => Text.join ["Unknown channels: ", Text.joinWith ", " missing]
  | channelNotFound name => Text.join ["Channel not found: ", name]
  | channelNotBound name => Text.join ["Channel not bound: ", name]
  | parse e => Text.join ["Parse error: ", e.message]
  | evaluation e => Text.join ["Evaluation error: ", e.message]
  | cancelled => "Evaluation cancelled"

/-- The channel that is at fault, if it is one. -/
def channel? : FormulaFault → Option Text
  | channelNotFound name => some name
  | channelNotBound name => some name
  | _ => none

/-- The channels that are missing, if some are. -/
def missing? : FormulaFault → Option (List Text)
  | unknownChannels missing => some missing
  | _ => none

end FormulaFault

/-- The first channel with the name, letter case left out of account. -/
def findChannel? (channels : List Text) (name : Text) : Option Nat :=
  channels.findIdx? fun c => Text.lowercase c == Text.lowercase name

/-- The columns of names, or the first name without a channel. -/
def bindNames (channels : List Text) : List Text → Except FormulaFault Bindings
  | [] => .ok []
  | name :: rest =>
    match findChannel? channels name with
    | none => .error (.channelNotFound name)
    | some column =>
      match bindNames channels rest with
      | .error e => .error e
      | .ok bindings => .ok ((name, column) :: bindings)

/-- Binds the channels that references read; references to one name share its column. -/
def bindReferences (refs : List Reference) (channels : List Text) : Except FormulaFault Bindings :=
  bindNames channels (Reference.distinctNames refs)

/-! ## The row nearest to a time

The time is first brought between the first and the last one; of two rows equally near the earlier
one is taken. -/

variable {α : Type}

/-- Halves the interval until the first index is left at which the test fails, for a test
that holds up to some index and fails from there on. -/
def bisect (holds : Nat → Bool) (low high : Nat) : Nat :=
  if low < high then
    let middle := (low + high) / 2
    if holds middle then bisect holds (middle + 1) high else bisect holds low middle
  else low
termination_by high - low
decreasing_by all_goals omega

section
variable [Scalar α]

/-- The first row that is not before a time. -/
def firstNotBefore (times : Array α) (time : α) : Nat :=
  bisect (fun row => times[row]?.any fun t => Scalar.less t time) 0 times.size

/-- Whether a row is at least as near to a time as another one. -/
def isNearer (times : Array α) (time : α) (row other : Nat) : Bool :=
  match times[row]?, times[other]? with
  | some t, some s => Scalar.atMost (Scalar.distance t time) (Scalar.distance s time)
  | _, _ => false

/-- The row nearest to a time that lies between the first and the last. -/
def nearestWithin (times : Array α) (time : α) : Nat :=
  let row := firstNotBefore times time
  match times[row]? with
  | none => times.size - 1
  | some t =>
    if Scalar.same t time || row == 0 then row
    else if isNearer times time (row - 1) row then row - 1
    else row

/-- The row nearest to a target, row 0 where there are no times. -/
def nearestTime (times : Array α) (target : α) : Nat :=
  match times[0]?, times[times.size - 1]? with
  | some first, some last =>
    nearestWithin times (Scalar.lesser (Scalar.greater target first) last)
  | _, _ => 0

end

end VirtualChannels
