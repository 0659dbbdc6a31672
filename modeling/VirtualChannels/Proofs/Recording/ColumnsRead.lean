import VirtualChannels.Proofs.Recording.Causality
import VirtualChannels.Proofs.Recording.SinglePass

/-
  Which columns a formula reads. Two recordings may differ in the columns that no reference is bound
  to, in the bindings of other names, and, if no sample is looked up by its time, in their times.
  The operands of the references are then the same (`operands_congr`), they have the same values at
  each row (`Operand.value_congr`), and the formula has the same outcome
  (`ofFormula_sees_bound_columns`).
-/

namespace VirtualChannels

/-- Tables with equally many rows, and with the same cells in a column where there are any. -/
structure Table.SameIn {α : Type} (data data' : Table α) (column : Nat) : Prop where
  size : data.size = data'.size
  cells : ∀ row, data.cell? row column = data'.cell? row column

/-- The references are bound alike, to columns that the tables share. -/
structure SameBound (refs : List Reference) (b b' : Bindings) (data data' : Table Float) :
    Prop where
  bound : ∀ r ∈ refs, Assignment.get? b r.name = Assignment.get? b' r.name
  columns : ∀ r ∈ refs, ∀ column, Assignment.get? b r.name = some column →
    data.SameIn data' column

/-! ## One column -/

theorem Table.map_getElem?_eq {α : Type} (data : Table α) (column : Nat) :
    data.toList.map (fun row => row[column]?) =
      (List.range data.size).map fun row => data.cell? row column := by
  refine List.ext_getElem (by simp) fun row h h' => ?_
  have hrow : row < data.size := by simpa using h
  simp [Table.cell?, hrow]

section
variable {α : Type} [Scalar α] {data data' : Table α} {column : Nat}

theorem Table.SameIn.samples (h : data.SameIn data' column) :
    data.samples column = data'.samples column := by
  have hfilter : ∀ t : Table α, t.samples column = (t.toList.map fun row => row[column]?).filterMap
      fun cell => cell.bind fun x => if Scalar.isFinite x then some x else none := fun t => by
    rw [List.filterMap_map]
    rfl
  rw [hfilter, hfilter, Table.map_getElem?_eq, Table.map_getElem?_eq, h.size]
  congr 1
  exact List.map_congr_left fun row _ => h.cells row

end

/-! ## Operands -/

section
variable {refs : List Reference} {b b' : Bindings} {data data' : Table Float} {column : Nat}
  {times times' : Array Float}

theorem Operand.ofReference_congr (h : data.SameIn data' column) (r : Reference) :
    ofReference data r column = ofReference data' r column := by
  unfold ofReference Summary.ofColumn
  rw [h.samples]

/-- At a row to which the shift leads with either times, an operand has the same value. -/
theorem Operand.value_congr (h : data.SameIn data' column) (r : Reference) {row : Nat}
    (hrow : r.shift.row data.size times row = r.shift.row data.size times' row) :
    (ofReference data r column).value data times row =
      (ofReference data r column).value data' times' row := by
  unfold ofReference
  cases r.statistic.bind fun s => (Summary.ofColumn data column).value? s with
  | some x => rfl
  | none =>
    unfold value
    dsimp only
    rw [hrow, h.size, h.cells]

theorem operands_congr (identifiers : Assignment Text) (h : SameBound refs b b' data data') :
    operands identifiers b data refs = operands identifiers b' data' refs := by
  induction refs with
  | nil => rfl
  | cons r rest ih =>
    have hrest := ih ⟨fun s hs => h.bound s (List.mem_cons_of_mem r hs),
      fun s hs => h.columns s (List.mem_cons_of_mem r hs)⟩
    rw [operands, operands, ← h.bound r List.mem_cons_self, hrest]
    cases hcolumn : Assignment.get? b r.name with
    | none => rfl
    | some column =>
      cases identifiers.get? r.matched with
      | none => rfl
      | some identifier =>
        dsimp only
        rw [Operand.ofReference_congr (h.columns r List.mem_cons_self column hcolumn)]

theorem rowScope_congr {identifiers : Assignment Text} {ops : Assignment Operand}
    (hops : operands identifiers b data refs = .ok ops) (h : SameBound refs b b' data data')
    {row : Nat}
    (hrow : ∀ r ∈ refs, r.shift.row data.size times row = r.shift.row data.size times' row) :
    rowScope ops data times row = rowScope ops data' times' row := by
  funext name
  unfold rowScope
  cases hget : ops.get? name with
  | none => rfl
  | some op =>
    obtain ⟨r, hr, column, hcolumn, hop⟩ :=
      exists_reference_of_operands hops (Assignment.mem_of_get?_eq_some hget)
    have hop' : op = .ofReference data r column := hop
    rw [Option.map_some, Option.map_some, hop',
      Operand.value_congr (h.columns r hr column hcolumn) r (hrow r hr)]

end

/-! ## Formulas -/

section
variable {o : EvaluationOptions} {formula : Text} {b b' : Bindings} {data data' : Table Float}
  {times times' : Array Float}

theorem ofFormula_congr (hsize : data.size = data'.size)
    (h : SameBound (references o.toScanOptions formula) b b' data data')
    (hrow : ∀ r ∈ references o.toScanOptions formula, ∀ row,
      r.shift.row data.size times row = r.shift.row data.size times' row) :
    Evaluation.ofFormula o formula b data times = Evaluation.ofFormula o formula b' data' times' := by
  unfold Evaluation.ofFormula
  have hoperands : operands (substitute o.toScanOptions formula).identifiers b data
      (substitute o.toScanOptions formula).references =
        operands (substitute o.toScanOptions formula).identifiers b' data'
          (substitute o.toScanOptions formula).references := operands_congr _ h
  dsimp only
  rw [← hsize, ← hoperands]
  cases Formula.parse (substitute o.toScanOptions formula).text with
  | error e => rfl
  | ok expr =>
    dsimp only
    cases hops : operands (substitute o.toScanOptions formula).identifiers b data
        (substitute o.toScanOptions formula).references with
    | error e => rfl
    | ok ops =>
      dsimp only
      have hscope : rowScope ops data times = rowScope ops data' times' :=
        funext fun row => rowScope_congr hops h fun r hr => hrow r hr row
      rw [hscope]

/-- A statistic is not shifted. -/
theorem shift_of_statistic {o : ScanOptions} {r : Reference} (hr : r ∈ references o formula)
    (hs : r.statistic ≠ none) : r.shift = .none := by
  obtain ⟨x, hx⟩ := Segment.Scanned.of_mem (mem_references.1 hr)
  generalize hsegment : Segment.reference r = segment at hx
  cases hx with
  | mark | emptyPair | numeral | point | unit => cases hsegment
  | quoted tail hne hname =>
    cases hsegment
    exact absurd rfl hs
  | @named identifier tail hi htail =>
    unfold Segment.named at hsegment
    dsimp only at hsegment
    split at hsegment
    · cases hsegment
    · split at hsegment
      · cases hsegment
        rfl
      · cases hsegment
        exact absurd rfl hs

/-- The shift is by a time. -/
def Shift.isTimed : Shift → Bool
  | seconds _ => true
  | none | rows _ => false

theorem Shift.row_congr {shift : Shift} (h : shift.isTimed = false) (count row : Nat) :
    shift.row count times row = shift.row count times' row := by
  cases shift with
  | none => rfl
  | rows offset => rfl
  | seconds s => cases h

end

/-- A formula sees only the columns that the names of its references are bound to. For tables that
agree there, and bindings that agree on these names, it has the same outcome, be it values,
degraded rows or an error, however the statistics are looked up. If no sample is shifted by a
time, the times do not matter either. -/
theorem ofFormula_sees_bound_columns (o : EvaluationOptions) (formula : Text) {b b' : Bindings}
    {data data' : Table Float} (hsize : data.size = data'.size)
    (hbound : ∀ r ∈ references o.toScanOptions formula,
      Assignment.get? b r.name = Assignment.get? b' r.name)
    (hcells : ∀ r ∈ references o.toScanOptions formula, ∀ column,
      Assignment.get? b r.name = some column →
        ∀ row, data.cell? row column = data'.cell? row column) :
    (∀ times, Evaluation.ofFormula o formula b data times =
        Evaluation.ofFormula o formula b' data' times ∧
      Evaluation.inSinglePass o formula b data times =
        Evaluation.inSinglePass o formula b' data' times) ∧
    ((∀ r ∈ references o.toScanOptions formula, r.statistic = none → r.shift.isTimed = false) →
      ∀ times times', Evaluation.ofFormula o formula b data times =
          Evaluation.ofFormula o formula b' data' times' ∧
        Evaluation.inSinglePass o formula b data times =
          Evaluation.inSinglePass o formula b' data' times') := by
  have h : SameBound (references o.toScanOptions formula) b b' data data' :=
    ⟨hbound, fun r hr column hcolumn => ⟨hsize, hcells r hr column hcolumn⟩⟩
  simp only [inSinglePass_eq, and_self]
  refine ⟨fun times => ofFormula_congr hsize h fun _ _ _ => rfl, fun hshift times times' => ?_⟩
  refine ofFormula_congr hsize h fun r hr row => Shift.row_congr ?_ data.size row
  by_cases hs : r.statistic = none
  · exact hshift r hr hs
  · rw [shift_of_statistic hr hs]
    rfl

/-- The next row of one column and the mean of another, where the column in between and the times
differ and one more name is bound. -/
theorem ofFormula_sees_next_row_and_mean :
    Evaluation.inSinglePass {} "RPM[1]+_mean_Speed" [("RPM", 0), ("Speed", 2)]
        #[#[1.0, 9.0, 5.0], #[2.0, 9.0], #[3.0]] #[0.0, 0.5, 1.0] =
      Evaluation.inSinglePass {} "RPM[1]+_mean_Speed" [("Boost", 1), ("Speed", 2), ("RPM", 0)]
        #[#[1.0, 7.0, 5.0], #[2.0], #[3.0, 8.0]] #[4.0] := by
  have hbound : ∀ r ∈ references {} "RPM[1]+_mean_Speed",
      Assignment.get? [("RPM", 0), ("Speed", 2)] r.name =
        Assignment.get? [("Boost", 1), ("Speed", 2), ("RPM", 0)] r.name := by
    decide +kernel
  have hcolumns : ∀ r ∈ references {} "RPM[1]+_mean_Speed",
      Assignment.get? [("RPM", 0), ("Speed", 2)] r.name = some 0 ∨
        Assignment.get? [("RPM", 0), ("Speed", 2)] r.name = some 2 := by
    decide +kernel
  refine ((ofFormula_sees_bound_columns {} "RPM[1]+_mean_Speed" ?_ hbound ?_).2 ?_ _ _).2
  · decide
  · intro r hr column hcolumn row
    -- The tables differ in column 1 only.
    rcases hcolumns r hr with h | h
    · obtain rfl : 0 = column := Option.some.inj (h.symm.trans hcolumn)
      rcases row with _ | _ | _ | row <;> simp [Table.cell?]
    · obtain rfl : 2 = column := Option.some.inj (h.symm.trans hcolumn)
      rcases row with _ | _ | _ | row <;> simp [Table.cell?]
  · decide +kernel

end VirtualChannels
