import VirtualChannels.Recording.Records

/-
  Evaluating in a single pass. The statistics of a column are computed once for all references to
  it, and one scope is kept for all rows: each row writes its values over those of the row before.
  The pass stops at a checkpoint at which it finds that the evaluation has been called off.
-/

namespace VirtualChannels

variable {data : Table Float}

/-- The statistics of the columns that have been asked for. -/
structure Summaries (data : Table Float) where
  entries : List (Nat × Summary Float) := []
  computed : ∀ p ∈ entries, p.2 = Summary.ofColumn data p.1 := by exact fun _ h => nomatch h

namespace Summaries

/-- With the statistics of one more column. -/
def insert (s : Summaries data) (column : Nat) : Summaries data where
  entries := (column, Summary.ofColumn data column) :: s.entries
  computed p hp := by
    rcases List.mem_cons.1 hp with rfl | hp
    · rfl
    · exact s.computed p hp

/-- The statistics of a column, computed only if they have not been before. -/
def fetch (s : Summaries data) (column : Nat) : Summary Float × Summaries data :=
  match s.entries.find? fun p => p.1 == column with
  | some p => (p.2, s)
  | none => (Summary.ofColumn data column, s.insert column)

end Summaries

namespace Operand

/-- The operand of a reference to a column, and the statistics that are known then. -/
def resolve (s : Summaries data) (r : Reference) (column : Nat) : Operand × Summaries data :=
  match r.statistic with
  | none => (.sample column r.shift, s)
  | some statistic =>
    let (summary, s) := s.fetch column
    match summary.value? statistic with
    | some x => (.constant x, s)
    | none => (.sample column r.shift, s)

/-- The operands of references under their identifiers, or the first name that is not bound. -/
def resolveAll (identifiers : Assignment Text) (bindings : Bindings) (s : Summaries data) :
    List Reference → Except FormulaFault (Assignment Operand)
  | [] => .ok []
  | r :: rest =>
    match bindings.get? r.name, identifiers.get? r.matched with
    | some column, some identifier =>
      let (op, s) := resolve s r column
      match resolveAll identifiers bindings s rest with
      | .error e => .error e
      | .ok others => .ok ((identifier, op) :: others)
    | _, _ => .error (.channelNotBound r.name)

end Operand

/-- What a pass has come to: the scope as the last row left it, and what it says of the rows so
far. -/
structure Pass where
  scope : Assignment Float := []
  values : Array Float := #[]
  degraded : Array Nat := #[]

namespace Pass

/-- The scope with the values of operands at a row written into it. -/
def write (ops : Assignment Operand) (data : Table Float) (times : Array Float) (row : Nat)
    (scope : Assignment Float) : Assignment Float :=
  ops.foldl (fun scope p => scope.put p.1 (p.2.value data times row)) scope

/-- The pass after one more row. -/
def step (expr : Formula.Expr) (ops : Assignment Operand) (data : Table Float)
    (times : Array Float) (pass : Pass) (row : Nat) : Pass :=
  let scope := write ops data times row pass.scope
  match finiteValue? expr scope.get? with
  | some x => ⟨scope, pass.values.push x, pass.degraded⟩
  | none => ⟨scope, pass.values.push 0.0, pass.degraded.push row⟩

/-- The pass after so many rows from one on, unless it is called off. -/
def run (aborted : Nat → Bool) (expr : Formula.Expr) (ops : Assignment Operand)
    (data : Table Float) (times : Array Float) (pass : Pass) (row : Nat) :
    Nat → Except FormulaFault Pass
  | 0 => .ok pass
  | left + 1 =>
    if aborted row && isCheckpoint row then .error .cancelled
    else run aborted expr ops data times (step expr ops data times pass row) (row + 1) left

end Pass

/-- The values of a formula for all rows, and which rows have none, in a single pass. -/
def Evaluation.inSinglePass (options : EvaluationOptions) (formula : Text) (bindings : Bindings)
    (data : Table Float) (times : Array Float) : Except FormulaFault Evaluation :=
  if data.size = 0 then .ok ⟨#[], []⟩
  else
    let substituted := substitute options.toScanOptions formula
    match Formula.parse substituted.text with
    | .error e => .error (.parse e)
    | .ok expr =>
      match Operand.resolveAll substituted.identifiers bindings ({} : Summaries data)
          substituted.references with
      | .error e => .error e
      | .ok ops =>
        match Pass.run options.aborted expr ops data times {} 0 data.size with
        | .error e => .error e
        | .ok pass => .ok ⟨pass.values, pass.degraded.toList⟩

end VirtualChannels
