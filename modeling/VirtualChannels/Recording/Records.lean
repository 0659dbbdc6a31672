import VirtualChannels.Recording.Basic
import VirtualChannels.Reference.Scan

/-
  Evaluating a formula for every row of a table. A row whose value is an error or not finite
  counts as zero and is reported as degraded; what concerns the whole formula is an error.
-/

namespace VirtualChannels

/-- `aborted` tells whether the evaluation has been called off when it comes to a row. -/
structure EvaluationOptions extends ScanOptions where
  aborted : Nat → Bool := fun _ => false

/-- What a reference stands for: a sample of a column, or a value for all rows. -/
inductive Operand where
  | sample (column : Nat) (shift : Shift)
  | constant (x : Float)

/-- The row that a shift leads to; rows are kept within the table, and seconds count from the
time of the row, zero where it has none. -/
def Shift.row (shift : Shift) (rowCount : Nat) (times : Array Float) (row : Nat) : Nat :=
  match shift with
  | .none => row
  | .rows offset => min (row + offset.toInt).toNat (rowCount - 1)
  | .seconds s => nearestTime times (times[row]?.getD 0.0 + s)

/-- A missing cell reads as zero. -/
def Operand.value (data : Table Float) (times : Array Float) (row : Nat) : Operand → Float
  | constant x => x
  | sample column shift => (data.cell? (shift.row data.size times row) column).getD 0.0

/-- The operand of a reference to a column. -/
def Operand.ofReference (data : Table Float) (r : Reference) (column : Nat) : Operand :=
  match r.statistic.bind fun s => (Summary.ofColumn data column).value? s with
  | some x => .constant x
  | none => .sample column r.shift

/-- The operands of references under their identifiers, or the first name that is not bound. -/
def operands (identifiers : Assignment Text) (bindings : Bindings) (data : Table Float) :
    List Reference → Except FormulaFault (Assignment Operand)
  | [] => .ok []
  | r :: rest =>
    match bindings.get? r.name, identifiers.get? r.matched with
    | some column, some identifier =>
      match operands identifiers bindings data rest with
      | .error e => .error e
      | .ok others => .ok ((identifier, Operand.ofReference data r column) :: others)
    | _, _ => .error (.channelNotBound r.name)

/-- The values of the identifiers at a row. -/
def rowScope (ops : Assignment Operand) (data : Table Float) (times : Array Float) (row : Nat) :
    Formula.Scope := fun name => (ops.get? name).map fun op => op.value data times row

/-- The value of an expression in a scope, if it has one and that is finite. -/
def finiteValue? (expr : Formula.Expr) (scope : Formula.Scope) : Option Float :=
  match expr.eval scope with
  | .ok x => if Number.isFinite x then some x else none
  | .error _ => none

structure Evaluation where
  values : Array Float
  degraded : List Nat

/-- The values of the rows, and the rows without one. -/
def Evaluation.ofRows (rowCount : Nat) (value? : Nat → Option Float) : Evaluation :=
  let outcomes := (List.range rowCount).map fun row => (row, value? row)
  { values := (outcomes.map fun p => p.2.getD 0.0).toArray
    degraded := outcomes.filterMap fun p => if p.2.isNone then some p.1 else none }

/-- The rows at which the evaluation looks whether it was called off. -/
def isCheckpoint (row : Nat) : Bool := row % 1024 == 0

def isCancelled (aborted : Nat → Bool) (rowCount : Nat) : Bool :=
  (List.range rowCount).any fun row => aborted row && isCheckpoint row

/-- The values of a formula for all rows, and which rows have none. -/
def Evaluation.ofFormula (options : EvaluationOptions) (formula : Text) (bindings : Bindings)
    (data : Table Float) (times : Array Float) : Except FormulaFault Evaluation :=
  if data.size = 0 then .ok ⟨#[], []⟩
  else
    let substituted := substitute options.toScanOptions formula
    match Formula.parse substituted.text with
    | .error e => .error (.parse e)
    | .ok expr =>
      match operands substituted.identifiers bindings data substituted.references with
      | .error e => .error e
      | .ok ops =>
        if isCancelled options.aborted data.size then .error .cancelled
        else .ok (.ofRows data.size fun row => finiteValue? expr (rowScope ops data times row))

/-- The values of a formula for all rows. -/
def evaluate (options : EvaluationOptions) (formula : Text) (bindings : Bindings)
    (data : Table Float) (times : Array Float) : Except FormulaFault (Array Float) :=
  (Evaluation.ofFormula options formula bindings data times).map Evaluation.values

/-- The first values of a formula, evaluated for all rows all the same. -/
def preview (options : EvaluationOptions) (formula : Text) (bindings : Bindings)
    (data : Table Float) (times : Array Float) (count : Nat) : Except FormulaFault (Array Float) :=
  (evaluate options formula bindings data times).map fun values => values.take count

/-- How many of `size` items a number asks for: what is below zero or no number asks for none,
a fraction is cut off, and infinity asks for all. -/
def countOf (size : Nat) (count : Float) : Nat :=
  if count.isNaN || Number.isNegative count then 0
  else if Number.isFinite count then Number.wholeUnits count
  else size

/-- The first values, as many as a number asks for. -/
def previewOf (options : EvaluationOptions) (formula : Text) (bindings : Bindings)
    (data : Table Float) (times : Array Float) (count : Float) : Except FormulaFault (Array Float) :=
  preview options formula bindings data times (countOf data.size count)

/-! ## Checks

A formula is checked before it is used: it is not blank, every channel it names exists, and the
text with identifiers parses and evaluates with one for every reference. No sample is read. -/

/-- One for every identifier. -/
def onesScope (identifiers : Assignment Text) : Formula.Scope := fun name =>
  if (identifiers.map Prod.snd).contains name then some 1.0 else none

/-- The names of a formula that no channel has. -/
def missingChannels (channels names : List Text) : List Text :=
  names.filter fun name => (findChannel? channels name).isNone

def validate (options : ScanOptions) (formula : Text) (channels : List Text) :
    Except FormulaFault Unit :=
  if formula.isBlank then .error .emptyFormula
  else
    let substituted := substitute options formula
    let missing := missingChannels channels (Reference.distinctNames substituted.references)
    if missing ≠ [] then .error (.unknownChannels missing)
    else
      match Formula.parse substituted.text with
      | .error e => .error (.parse e)
      | .ok expr =>
        match expr.eval (onesScope substituted.identifiers) with
        | .error e => .error (.evaluation e)
        | .ok _ => .ok ()

end VirtualChannels
