import VirtualChannels.Proofs.Number.Sums
import VirtualChannels.Proofs.Recording.NearestRow
import VirtualChannels.Proofs.Recording.Rows

/-
  Formulas that read no later row than the one they are evaluated for. When such a formula is
  evaluated while a table is still being recorded, the rows that come later change none of the
  values it has then (`ofFormula_append`).
-/

namespace VirtualChannels

/-! ## Shifts that do not lead to a later row -/

/-- Not a shift to a later row or a later time. -/
def Shift.IsCausal : Shift → Prop
  | .none => True
  | .rows offset => offset.toInt ≤ 0
  | .seconds s => s ≤ 0.0

/-- Reads a sample, and that not of a later row or time. -/
def Reference.IsCausal (r : Reference) : Prop := r.statistic.isNone = true ∧ r.shift.IsCausal

instance (shift : Shift) : Decidable shift.IsCausal :=
  match shift with
  | .none => isTrue trivial
  | .rows offset => inferInstanceAs (Decidable (offset.toInt ≤ 0))
  | .seconds s => inferInstanceAs (Decidable (s ≤ 0.0))

instance (r : Reference) : Decidable r.IsCausal := inferInstanceAs (Decidable (_ ∧ _))

/-- Times that are finite and do not go back. -/
def Chronological (times : Array Float) : Prop :=
  (∀ t ∈ times, Number.isFinite t = true) ∧ times.toList.Pairwise (· ≤ ·)

instance (times : Array Float) : Decidable (Chronological times) :=
  inferInstanceAs (Decidable (_ ∧ _))

theorem Chronological.isFinite {times : Array Float} (h : Chronological times) {row : Nat}
    {t : Float} (ht : times[row]? = some t) : Number.isFinite t = true :=
  h.1 t (Array.mem_of_getElem? ht)

theorem Chronological.ascending {times : Array Float} (h : Chronological times) :
    Ascending times :=
  .of_pairwise (fun t ht => Number.isNumber_of_isFinite (h.1 t ht))
    (h.2.imp Number.rank_le_of_le)

section
variable {data more : Table Float} {times later : Array Float}

/-- From a row that was there before, a causal shift leads where it led before, and not to a
later row. -/
theorem Shift.IsCausal.row_append {shift : Shift} (h : shift.IsCausal)
    (hs : Chronological (times ++ later)) {row : Nat} (hrow : row < times.size) :
    shift.row (times ++ later).size (times ++ later) row = shift.row times.size times row ∧
      shift.row times.size times row ≤ row := by
  cases shift with
  | none => exact ⟨rfl, Nat.le_refl _⟩
  | rows offset =>
    have hoffset : offset.toInt ≤ 0 := h
    rw [Array.size_append]
    unfold Shift.row
    dsimp only
    omega
  | seconds s =>
    have hs' : s ≤ 0.0 := h
    have hget : (times ++ later)[row]? = some times[row] := by
      rw [Array.getElem?_append_left hrow, Array.getElem?_eq_getElem hrow]
    have hget' : times[row]? = some times[row] := Array.getElem?_eq_getElem hrow
    have hzero : Number.rank 0.0 = 0 := by decide +kernel
    obtain ⟨hnumber, hle⟩ := Number.rank_add_le (hs.isFinite hget) (Number.isNumber_of_le hs').1
      (hzero ▸ Number.rank_le_of_le hs')
    show nearestTime (times ++ later) ((times ++ later)[row]?.getD 0.0 + s) =
        nearestTime times (times[row]?.getD 0.0 + s) ∧
      nearestTime times (times[row]?.getD 0.0 + s) ≤ row
    rw [hget, hget', Option.getD_some]
    exact nearestTime_append hs.ascending hnumber hget' hle

theorem Table.cell?_append {row : Nat} (hrow : row < data.size) (column : Nat) :
    (data ++ more).cell? row column = data.cell? row column := by
  unfold cell?
  rw [Array.getElem?_append_left hrow]

/-! ## Operands and scopes -/

/-- Without statistics the operands are samples, whatever the table holds. -/
theorem operands_of_noStatistic {identifiers : Assignment Text} {b : Bindings}
    {refs : List Reference} (h : ∀ r ∈ refs, r.statistic = none) (data data' : Table Float) :
    operands identifiers b data refs = operands identifiers b data' refs := by
  induction refs with
  | nil => rfl
  | cons r rest ih =>
    have hr : r.statistic = none := h r List.mem_cons_self
    rw [operands, operands, ih fun s hs => h s (List.mem_cons_of_mem r hs)]
    simp only [Operand.ofReference, hr, Option.bind_none]

/-- Every operand is that of a reference and its column. -/
theorem exists_reference_of_operands {identifiers : Assignment Text} {b : Bindings}
    {refs : List Reference} {ops : Assignment Operand}
    (h : operands identifiers b data refs = .ok ops) {p : Text × Operand} (hp : p ∈ ops) :
    ∃ r ∈ refs, ∃ column, Assignment.get? b r.name = some column ∧
      p.2 = .ofReference data r column := by
  obtain ⟨hcover, hidentifiers⟩ := cover_of_operands h
  obtain ⟨ops', hops', hmem⟩ := exists_operands data hcover hidentifiers
  rw [h] at hops'
  cases hops'
  obtain ⟨r, hr, column, hcolumn, -, hop⟩ := (hmem p).1 hp
  exact ⟨r, hr, column, hcolumn, hop⟩

/-- The operand of a causal reference has at a row the value it had before rows were added. -/
theorem Operand.value_append {r : Reference} (hr : r.IsCausal) (column : Nat)
    (hs : Chronological (times ++ later)) (htimes : times.size = data.size)
    (hlater : later.size = more.size) {row : Nat} (hrow : row < data.size) :
    (ofReference data r column).value (data ++ more) (times ++ later) row =
      (ofReference data r column).value data times row := by
  have hsample : ofReference data r column = .sample column r.shift := by
    unfold ofReference
    rw [Option.isNone_iff_eq_none.1 hr.1]
    rfl
  obtain ⟨hsame, hle⟩ := hr.2.row_append hs (htimes ▸ hrow)
  have hsize : (times ++ later).size = (data ++ more).size := by
    rw [Array.size_append, Array.size_append, htimes, hlater]
  rw [hsize, htimes] at hsame
  rw [htimes] at hle
  rw [hsample]
  unfold value
  dsimp only
  rw [hsame, Table.cell?_append (Nat.lt_of_le_of_lt hle hrow)]

theorem rowScope_append {identifiers : Assignment Text} {b : Bindings} {refs : List Reference}
    {ops : Assignment Operand} (hops : operands identifiers b data refs = .ok ops)
    (hrefs : ∀ r ∈ refs, r.IsCausal) (hs : Chronological (times ++ later))
    (htimes : times.size = data.size) (hlater : later.size = more.size) {row : Nat}
    (hrow : row < data.size) :
    rowScope ops (data ++ more) (times ++ later) row = rowScope ops data times row := by
  funext name
  unfold rowScope
  cases hget : ops.get? name with
  | none => rfl
  | some op =>
    obtain ⟨r, hr, column, -, hop⟩ :=
      exists_reference_of_operands hops (Assignment.mem_of_get?_eq_some hget)
    have hop' : op = .ofReference data r column := hop
    rw [Option.map_some, Option.map_some, hop',
      Operand.value_append (hrefs r hr) column hs htimes hlater hrow]

/-! ## Evaluations -/

/-- What an evaluation says of the first rows. -/
def Evaluation.restrict (count : Nat) (ev : Evaluation) : Evaluation :=
  ⟨ev.values.take count, ev.degraded.filter fun row => row < count⟩

theorem Evaluation.restrict_ofRows {count : Nat} (added : Nat) {value? value'? : Nat → Option Float}
    (hv : ∀ row < count, value'? row = value? row) :
    restrict count (ofRows (count + added) value'?) = ofRows count value? := by
  have hvalues : (restrict count (ofRows (count + added) value'?)).values =
      (ofRows count value?).values := by
    show (ofRows (count + added) value'?).values.take count = _
    rw [values_ofRows, values_ofRows, List.take_toArray, ← List.map_take, List.take_range,
      Nat.min_eq_left (Nat.le_add_right _ _)]
    refine congrArg List.toArray (List.map_congr_left fun row hrow => ?_)
    rw [hv row (List.mem_range.1 hrow)]
  have hdegraded : (restrict count (ofRows (count + added) value'?)).degraded =
      (ofRows count value?).degraded := by
    show (ofRows (count + added) value'?).degraded.filter _ = _
    rw [degraded_ofRows, degraded_ofRows, List.range_add, List.filter_append, List.filter_append,
      List.filter_filter, List.filter_filter]
    have hadded : ((List.range added).map (count + ·)).filter
        (fun row => decide (row < count) && (value'? row).isNone) = [] := by
      refine List.filter_eq_nil_iff.2 fun row hrow => ?_
      obtain ⟨i, -, rfl⟩ := List.mem_map.1 hrow
      rw [decide_eq_false (by omega), Bool.false_and]
      exact Bool.false_ne_true
    rw [hadded, List.append_nil]
    refine List.filter_congr fun row hrow => ?_
    have hlt : row < count := List.mem_range.1 hrow
    rw [decide_eq_true hlt, Bool.true_and, hv row hlt]
  exact congrArg₂ Evaluation.mk hvalues hdegraded

/-- A formula that reads no later row says of the first rows of a table what it said before the
others were added, and fails as it did. -/
theorem ofFormula_append {o : ScanOptions} {formula : Text} (b : Bindings)
    (data more : Table Float) (hrefs : ∀ r ∈ references o formula, r.IsCausal)
    (hd : data.size ≠ 0) (htimes : times.size = data.size) (hlater : later.size = more.size)
    (hs : Chronological (times ++ later)) :
    Evaluation.ofFormula { o with } formula b data times =
      (Evaluation.ofFormula { o with } formula b (data ++ more) (times ++ later)).map
        (Evaluation.restrict data.size) := by
  have hd' : (data ++ more).size ≠ 0 := by
    rw [Array.size_append]
    omega
  have hsame : operands (substitute o formula).identifiers b (data ++ more)
      (substitute o formula).references =
        operands (substitute o formula).identifiers b data (substitute o formula).references :=
    operands_of_noStatistic (fun r hr => Option.isNone_iff_eq_none.1 (hrefs r hr).1) _ _
  unfold Evaluation.ofFormula
  rw [if_neg hd, if_neg hd']
  dsimp only
  rw [hsame]
  cases Formula.parse (substitute o formula).text with
  | error e => rfl
  | ok expr =>
    dsimp only
    cases hops : operands (substitute o formula).identifiers b data
        (substitute o formula).references with
    | error e => rfl
    | ok ops =>
      dsimp only
      rw [isCancelled_never, isCancelled_never, if_neg Bool.false_ne_true,
        if_neg Bool.false_ne_true, Except.map, Array.size_append]
      rw [Evaluation.restrict_ofRows more.size fun row hrow => by
        rw [rowScope_append hops hrefs hs htimes hlater hrow]]

end

/-- The row before and the time half a second before, where times come twice and rows of one
time are added. -/
theorem ofFormula_append_row_and_time_before :
    (∀ r ∈ references {} "RPM[-1]+Boost@-0.5s", r.IsCausal) ∧
      Chronological (#[0.0, 0.5, 0.5] ++ #[0.5, 1.0]) ∧
      ∃ ev, Evaluation.ofFormula {} "RPM[-1]+Boost@-0.5s" [("RPM", 0), ("Boost", 1)]
          #[#[1.0, 2.0], #[3.0, 4.0], #[5.0, 6.0]] #[0.0, 0.5, 0.5] = .ok (ev.restrict 3) ∧
        Evaluation.ofFormula {} "RPM[-1]+Boost@-0.5s" [("RPM", 0), ("Boost", 1)]
          (#[#[1.0, 2.0], #[3.0, 4.0], #[5.0, 6.0]] ++ #[#[7.0, 8.0], #[9.0]])
          (#[0.0, 0.5, 0.5] ++ #[0.5, 1.0]) = .ok ev := by
  have hrefs : ∀ r ∈ references {} "RPM[-1]+Boost@-0.5s", r.IsCausal := by decide +kernel
  have hs : Chronological (#[0.0, 0.5, 0.5] ++ #[0.5, 1.0]) := by decide +kernel
  have hok : (Evaluation.ofFormula {} "RPM[-1]+Boost@-0.5s" [("RPM", 0), ("Boost", 1)]
      (#[#[1.0, 2.0], #[3.0, 4.0], #[5.0, 6.0]] ++ #[#[7.0, 8.0], #[9.0]])
      (#[0.0, 0.5, 0.5] ++ #[0.5, 1.0])).isOk = true := by
    decide +kernel
  have h := ofFormula_append [("RPM", 0), ("Boost", 1)] #[#[1.0, 2.0], #[3.0, 4.0], #[5.0, 6.0]]
    #[#[7.0, 8.0], #[9.0]] hrefs (by decide) rfl rfl hs
  refine ⟨hrefs, hs, ?_⟩
  rw [h]
  generalize Evaluation.ofFormula {} _ _ (_ ++ _) _ = outcome at hok ⊢
  cases outcome with
  | error e => cases hok
  | ok ev => exact ⟨ev, rfl, rfl⟩

end VirtualChannels
