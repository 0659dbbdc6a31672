import VirtualChannels.Proofs.Recording.Operands

/-
  The rows of an evaluation. A row has the finite value of its outcome, or counts as zero and is
  degraded; a formula whose names are bound fails only if the text with identifiers does not
  parse (`Evaluation.ofFormula_eq`).
-/

namespace VirtualChannels

/-- The finite value of an outcome. -/
def finiteOutcome? : Except Formula.EvalError Float → Option Float
  | .ok x => if Number.isFinite x then some x else none
  | .error _ => none

theorem finiteValue?_eq (expr : Formula.Expr) (scope : Formula.Scope) :
    finiteValue? expr scope = finiteOutcome? (expr.eval scope) := by
  unfold finiteValue? finiteOutcome?
  cases expr.eval scope <;> rfl

theorem finiteOutcome?_eq_none_iff {x : Float} :
    finiteOutcome? (.ok x) = none ↔ Number.isFinite x = false := by
  rw [finiteOutcome?, ite_eq_right_iff]
  constructor
  · intro h
    exact Bool.eq_false_iff.2 fun hx => nomatch h hx
  · intro h hx
    rw [h] at hx
    cases hx

namespace Evaluation

theorem values_ofRows (count : Nat) (value? : Nat → Option Float) :
    (ofRows count value?).values =
      ((List.range count).map fun row => (value? row).getD 0.0).toArray := by
  rw [ofRows, List.map_map]
  rfl

theorem degraded_ofRows (count : Nat) (value? : Nat → Option Float) :
    (ofRows count value?).degraded = (List.range count).filter fun row => (value? row).isNone := by
  show ((List.range count).map fun row => (row, value? row)).filterMap _ = _
  rw [List.filterMap_map]
  exact congrFun List.filterMap_eq_filter _

theorem getElem?_ofRows {count row : Nat} (h : row < count) (value? : Nat → Option Float) :
    (ofRows count value?).values[row]? = some ((value? row).getD 0.0) := by
  rw [values_ofRows, List.getElem?_toArray, List.getElem?_map, List.getElem?_range h]
  rfl

theorem size_ofRows (count : Nat) (value? : Nat → Option Float) :
    (ofRows count value?).values.size = count := by
  rw [values_ofRows, List.size_toArray, List.length_map, List.length_range]

theorem mem_degraded_ofRows {count row : Nat} {value? : Nat → Option Float} :
    row ∈ (ofRows count value?).degraded ↔ row < count ∧ value? row = none := by
  rw [degraded_ofRows, List.mem_filter, List.mem_range, Option.isNone_iff_eq_none]

theorem values_ofRows_succ (count : Nat) (value? : Nat → Option Float) :
    (ofRows (count + 1) value?).values =
      (ofRows count value?).values.push ((value? count).getD 0.0) := by
  rw [values_ofRows, values_ofRows, List.range_succ, List.map_append, ← List.append_toArray]
  rfl

theorem degraded_ofRows_succ (count : Nat) (value? : Nat → Option Float) :
    (ofRows (count + 1) value?).degraded =
      (ofRows count value?).degraded ++ if (value? count).isNone then [count] else [] := by
  rw [degraded_ofRows, degraded_ofRows, List.range_succ, List.filter_append, List.filter_singleton,
    cond_eq_ite]

theorem ofRows_congr {count : Nat} {value? value'? : Nat → Option Float}
    (h : ∀ row < count, value? row = value'? row) : ofRows count value? = ofRows count value'? := by
  have houtcomes : (List.range count).map (fun row => (row, value? row)) =
      (List.range count).map fun row => (row, value'? row) :=
    List.map_congr_left fun row hrow => by rw [h row (List.mem_range.1 hrow)]
  unfold ofRows
  rw [houtcomes]

theorem ofRows_eq_of_forall_none {count : Nat} {value? : Nat → Option Float}
    (h : ∀ row < count, value? row = none) :
    ofRows count value? = ⟨(List.replicate count 0.0).toArray, List.range count⟩ := by
  have hv : (ofRows count value?).values = (List.replicate count 0.0).toArray := by
    rw [values_ofRows]
    congr 1
    rw [List.eq_replicate_iff, List.length_map, List.length_range]
    refine ⟨rfl, fun x hx => ?_⟩
    obtain ⟨row, hrow, rfl⟩ := List.mem_map.1 hx
    rw [h row (List.mem_range.1 hrow)]
    rfl
  have hd : (ofRows count value?).degraded = List.range count := by
    rw [degraded_ofRows, List.filter_eq_self]
    intro row hrow
    rw [h row (List.mem_range.1 hrow)]
    rfl
  rw [← hv, ← hd]

end Evaluation

/-- Zero, which stands for a value that is not finite, is finite. -/
theorem isFinite_finiteOutcome? (outcome : Except Formula.EvalError Float) :
    Number.isFinite ((finiteOutcome? outcome).getD 0.0) = true := by
  unfold finiteOutcome?
  split
  · split
    · rename_i hx
      exact hx
    · rfl
  · rfl

theorem Evaluation.ofFormula_of_empty {data : Table Float} (hd : data.size = 0)
    (o : EvaluationOptions) (formula : Text) (b : Bindings) (times : Array Float) :
    ofFormula o formula b data times = .ok ⟨#[], []⟩ :=
  if_pos hd

/-- An evaluation of some rows that does not fail evaluates one expression in the scope of each
row. -/
theorem Evaluation.eq_ofRows_of_ofFormula {o : EvaluationOptions} {formula : Text} {b : Bindings}
    {data : Table Float} {times : Array Float} {ev : Evaluation}
    (h : ofFormula o formula b data times = .ok ev) (hd : data.size ≠ 0) :
    ∃ expr ops, Formula.parse (substitute o.toScanOptions formula).text = .ok expr ∧
      operands (substitute o.toScanOptions formula).identifiers b data
        (references o.toScanOptions formula) = .ok ops ∧
      ev = ofRows data.size fun row => finiteOutcome? (expr.eval (rowScope ops data times row)) := by
  unfold ofFormula at h
  rw [if_neg hd] at h
  dsimp only at h
  split at h
  · cases h
  · rename_i expr hparse
    split at h
    · cases h
    · rename_i ops hops
      split at h
      · cases h
      · cases h
        simp only [finiteValue?_eq]
        exact ⟨expr, ops, hparse, hops, rfl⟩

/-- An evaluation that does not fail tells the finite value of an outcome for each row. -/
theorem Evaluation.exists_ofRows_of_ofFormula {o : EvaluationOptions} {formula : Text}
    {b : Bindings} {data : Table Float} {times : Array Float} {ev : Evaluation}
    (h : ofFormula o formula b data times = .ok ev) :
    ∃ outcome : Nat → Except Formula.EvalError Float,
      ev = ofRows data.size fun row => finiteOutcome? (outcome row) := by
  by_cases hd : data.size = 0
  · rw [ofFormula_of_empty hd] at h
    cases h
    rw [hd]
    exact ⟨fun _ => .ok 0.0, rfl⟩
  · obtain ⟨expr, ops, -, -, rfl⟩ := eq_ofRows_of_ofFormula h hd
    exact ⟨_, rfl⟩

/-- With any bindings and options, an evaluation that does not fail has one value for each row,
and all values are finite. -/
theorem Evaluation.values_of_ofFormula {o : EvaluationOptions} {formula : Text} {b : Bindings}
    {data : Table Float} {times : Array Float} {ev : Evaluation}
    (h : ofFormula o formula b data times = .ok ev) :
    ev.values.size = data.size ∧ ∀ x ∈ ev.values, Number.isFinite x = true := by
  obtain ⟨outcome, rfl⟩ := exists_ofRows_of_ofFormula h
  refine ⟨size_ofRows _ _, fun x hx => ?_⟩
  rw [values_ofRows, List.mem_toArray, List.mem_map] at hx
  obtain ⟨row, -, rfl⟩ := hx
  exact isFinite_finiteOutcome? _

theorem evaluate_eq_ok_iff {o : EvaluationOptions} {formula : Text} {b : Bindings}
    {data : Table Float} {times xs : Array Float} :
    evaluate o formula b data times = .ok xs ↔
      ∃ ev, Evaluation.ofFormula o formula b data times = .ok ev ∧ ev.values = xs := by
  unfold evaluate
  cases Evaluation.ofFormula o formula b data times with
  | error e => exact iff_of_false (fun h => nomatch h) fun ⟨_, h, _⟩ => nomatch h
  | ok ev =>
    constructor
    · intro h
      exact ⟨ev, rfl, Except.ok.inj h⟩
    · rintro ⟨_, ⟨⟩, rfl⟩
      rfl

theorem isCancelled_never (count : Nat) : isCancelled (fun _ => false) count = false := by
  simp [isCancelled]

/-- With all names bound, a formula fails as parsing the text with identifiers does; else every
row evaluates the expression in its scope. -/
theorem Evaluation.ofFormula_eq {o : ScanOptions} {formula : Text} {b : Bindings}
    (data : Table Float) (times : Array Float) (hb : b.Cover (references o formula))
    (hd : data.size ≠ 0) :
    ∃ ops, operands (substitute o formula).identifiers b data (references o formula) = .ok ops ∧
      ofFormula { o with } formula b data times =
        match Formula.parse (substitute o formula).text with
        | .error e => .error (.parse e)
        | .ok expr => .ok (.ofRows data.size fun row =>
            finiteOutcome? (expr.eval (rowScope ops data times row))) := by
  obtain ⟨ops, hops, -⟩ := exists_operands data hb exists_identifier
  refine ⟨ops, hops, ?_⟩
  have hops' : operands (substitute o formula).identifiers b data
      (substitute o formula).references = .ok ops := hops
  rw [ofFormula, if_neg hd]
  dsimp only
  cases Formula.parse (substitute o formula).text with
  | error e => rfl
  | ok expr =>
    simp only [hops', isCancelled_never, finiteValue?_eq]
    rfl

end VirtualChannels
