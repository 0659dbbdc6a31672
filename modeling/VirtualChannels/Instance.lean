import VirtualChannels.Journal
import VirtualChannels.Recording.Records
import VirtualChannels.Template

/-
  Instances: a template applied to one recording. An instance keeps the bindings of its last
  application, whether there are any, the values and the last error. That values and an error are
  never there together is due to the operations: what sets one of them clears the other. An error
  stands until the next application: reading evaluates again only where there is neither.
-/

namespace VirtualChannels

structure Instance where
  template : Template
  bindings : Bindings := []
  /-- Whether the bindings are those of an application. -/
  bound : Bool := false
  data? : Option (Array Float) := none
  error? : Option FormulaFault := none

namespace Instance

/-- What an operation answers, the instance after it, and the journal entries it wrote. -/
structure Outcome (α : Type) where
  answer : α
  state : Instance
  journal : List Journal.Entry

def ofTemplate (t : Template) : Instance := { template := t }

def hasValues (i : Instance) : Bool := i.error?.isNone && i.data?.isSome

def writer : Journal.Writer := { context := { service := some (.text "ComputedChannelInstance") } }

/-- The warning about an error of a template. -/
def warning (t : Template) (e : FormulaFault) : List Journal.Entry :=
  writer.write
    { level := .warn
      message := "Computed channel could not be applied"
      context := { templateId := some (.text t.id) }
      data := some (.object [("name", .text t.name), ("reason", .text e.message)]) }

/-- The error takes the place of the values and is written to the journal. -/
def fail (i : Instance) (e : FormulaFault) : Outcome Bool :=
  ⟨false, { i with data? := none, error? := some e }, warning i.template e⟩

/-- Evaluates every row with the present bindings. -/
def evaluateRows (i : Instance) (recording : Recording) (options : EvaluationOptions) :
    Outcome Bool :=
  match evaluate options i.template.formula i.bindings recording.data recording.times with
  | .error e => i.fail e
  | .ok xs => ⟨true, { i with data? := some xs, error? := none }, []⟩

/-- Binds the template to a recording and evaluates every row. -/
def apply (i : Instance) (recording : Recording) (options : EvaluationOptions) : Outcome Bool :=
  match bindReferences (references options.toScanOptions i.template.formula) recording.channels with
  | .error e => fail { i with bindings := [], bound := false } e
  | .ok bindings => evaluateRows { i with bindings := bindings, bound := true } recording options

/-- Forgets the values; bindings and error stay. -/
def forget (i : Instance) : Instance := { i with data? := none }

/-- Evaluates with the present bindings, or applies the template if there are none. -/
def refresh (i : Instance) (recording : Recording) (options : EvaluationOptions) : Outcome Bool :=
  if i.bound then i.evaluateRows recording options else i.apply recording options

/-- The values, refreshed if there is neither a value nor an error. -/
def read (i : Instance) (recording : Recording) (options : EvaluationOptions) :
    Outcome (Option (Array Float)) :=
  match i.data? with
  | some xs => ⟨some xs, i, []⟩
  | none =>
    match i.error? with
    | some _ => ⟨none, i, []⟩
    | none =>
      let refreshed := i.refresh recording options
      { answer := if refreshed.answer then refreshed.state.data? else none
        state := refreshed.state
        journal := refreshed.journal }

/-- The value at a row, zero for a row that is none. -/
def valueIn (data : Option (Array Float)) (row : Float) : Float :=
  ((Number.toNat? row).bind fun r => data.bind fun xs => xs[r]?).getD 0.0

/-- The value at a row, zero where there is none. -/
def readAt (i : Instance) (recording : Recording) (row : Float) : Outcome Float :=
  let got := i.read recording {}
  ⟨valueIn got.answer row, got.state, got.journal⟩

end Instance

/-! ## Sources

Everything that can be drawn for a recording: its own channels and then the computed channels
applied to it. -/

inductive Source where
  | channel (column : Nat) (name unit : Text)
  | computed (i : Instance)

namespace Source

def name : Source → Text
  | channel _ name _ => name
  | computed i => i.template.name

def unit : Source → Text
  | channel _ _ unit => unit
  | computed i => i.template.unit

/-- The sample of a column at a row, zero where there is none. -/
def sampleAt (recording : Recording) (column : Nat) (row : Float) : Float :=
  ((Number.toNat? row).bind fun r => recording.data.cell? r column).getD 0.0

/-- The value at a row and the source after the reading, which may have evaluated it. -/
def readAt (source : Source) (recording : Recording) (row : Float) : Float × Source :=
  match source with
  | channel column name unit => (sampleAt recording column row, channel column name unit)
  | computed i =>
    let outcome := i.readAt recording row
    (outcome.answer, computed outcome.state)

/-- The channels of a recording in column order; one without a unit has the empty one. -/
def ofChannels (recording : Recording) : List Source :=
  recording.channels.mapIdx fun column name =>
    channel column name (recording.units[column]?.getD [])

def all (recording : Recording) (instances : List Instance) : List Source :=
  ofChannels recording ++ instances.map computed

end Source

end VirtualChannels
