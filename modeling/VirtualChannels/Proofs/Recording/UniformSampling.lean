import VirtualChannels.Proofs.Recording.NearestSample
import VirtualChannels.Proofs.Recording.Rows
import VirtualChannels.Proofs.Reference.SingleReference
import VirtualChannels.Proofs.Reference.WholeShifts

/-
  Uniform sampling. Where the times go on by equal steps, a shift by as many steps in seconds
  leads to the row that a shift by as many rows leads to (`row_seconds_uniform`): the target is
  brought to the time of that row, and the search finds it there. A formula that is one
  reference depends on its shift by the rows alone (`ofFormula_eq_of_rows`), so both ways to
  write the shift have the same values.
-/

namespace VirtualChannels

open Number (IsExactly exactLimit nearestRank unitsPerOne)

/-- Times that begin at a whole number and go on by equal steps. -/
def uniformTimes (count : Nat) (start step : Int) : Array Float :=
  (Array.range count).map fun (row : Nat) => Number.ofInt (start + row * step)

/-! ## The row of a shift -/

section
variable {count row : Nat} {start step k : Int}

theorem size_uniformTimes (count : Nat) (start step : Int) :
    (uniformTimes count start step).size = count := by
  rw [uniformTimes, Array.size_map, Array.size_range]

theorem getElem?_uniformTimes (start step : Int) (h : row < count) :
    (uniformTimes count start step)[row]? = some (Number.ofInt (start + row * step)) := by
  have hrange : (Array.range count)[row]? = some row := by
    rw [Array.getElem?_range, if_pos h]
  rw [uniformTimes, Array.getElem?_map, hrange]
  rfl

/-- All times are below 2^53, so that they are whole numbers. -/
def ExactTimes (count : Nat) (start step : Int) : Prop :=
  ∀ row < count, (start + row * step).natAbs < exactLimit

theorem ExactTimes.isExactly (h : ExactTimes count start step) {t : Float}
    (ht : (uniformTimes count start step)[row]? = some t) :
    row < count ∧ IsExactly t (start + row * step) := by
  have hrow := (Array.getElem?_eq_some_iff.1 ht).1
  rw [size_uniformTimes] at hrow
  rw [getElem?_uniformTimes start step hrow] at ht
  cases ht
  exact ⟨hrow, Number.isExactly_ofInt (h row hrow)⟩

theorem ExactTimes.ascending (h : ExactTimes count start step) (hstep : 1 ≤ step) :
    Ascending (uniformTimes count start step) := by
  constructor
  · intro row t ht
    exact Number.isNumber_of_isFinite (h.isExactly ht).2.finite
  · intro row row' t t' hle ht ht'
    refine ((h.isExactly ht).2.rank_le_iff (h.isExactly ht').2).2 ?_
    have hmul : (row : Int) * step ≤ row' * step :=
      Int.mul_le_mul_of_nonneg_right (Int.ofNat_le.2 hle) (by omega)
    omega

/-- Between the first and the last row, as many rows away as there are. -/
def shiftedRow (count row : Nat) (k : Int) : Nat := min (row + k).toNat (count - 1)

theorem shiftedRow_lt (hrow : row < count) : shiftedRow count row k < count := by
  unfold shiftedRow
  omega

/-- What brings a target between the first and the last time brings it to the time of a row. -/
theorem within_steps (hstep : 1 ≤ step) (hrow : row < count) :
    min (max (start + row * step + k * step) start) (start + ((count - 1 : Nat) : Int) * step) =
      start + (shiftedRow count row k : Int) * step := by
  have hsum : start + row * step + k * step = start + (row + k) * step := by
    rw [Int.add_assoc, ← Int.add_mul]
  have hmono {i j : Int} (h : i ≤ j) : start + i * step ≤ start + j * step :=
    Int.add_le_add_left (Int.mul_le_mul_of_nonneg_right h (by omega)) start
  have hzero : start + 0 * step = start := by rw [Int.zero_mul, Int.add_zero]
  rw [hsum]
  rcases le_total (row + k) 0 with hbefore | hafter
  · have hshifted : shiftedRow count row k = 0 := by
      unfold shiftedRow
      omega
    have hfirst : start + (row + k) * step ≤ start := (hmono hbefore).trans_eq hzero
    have hlast : start ≤ start + ((count - 1 : Nat) : Int) * step :=
      hzero.symm.trans_le (hmono (Int.natCast_nonneg _))
    rw [max_eq_right hfirst, min_eq_left hlast, hshifted]
    exact hzero.symm
  · have hfirst : start ≤ start + (row + k) * step := hzero.symm.trans_le (hmono hafter)
    rw [max_eq_left hfirst]
    rcases le_total (row + k) ((count - 1 : Nat) : Int) with hbelow | habove
    · have hshifted : (shiftedRow count row k : Int) = row + k := by
        unfold shiftedRow
        omega
      rw [min_eq_left (hmono hbelow), hshifted]
    · have hshifted : shiftedRow count row k = count - 1 := by
        unfold shiftedRow
        omega
      rw [min_eq_right (hmono habove), hshifted]

/-- As many steps in seconds lead as far as so many rows. -/
theorem row_seconds_uniform (h : ExactTimes count start step) (hstep : 1 ≤ step)
    (hrow : row < count) {s : Float} (hs : IsExactly s (k * step)) :
    Shift.row (.seconds s) count (uniformTimes count start step) row = shiftedRow count row k := by
  have htime {i : Nat} (hi : i < count) := getElem?_uniformTimes start step hi
  have hexact {i : Nat} (hi : i < count) := (h.isExactly (htime hi)).2
  have hfirst : 0 < count := by omega
  have hlast : count - 1 < count := by omega
  have hshifted : shiftedRow count row k < count := shiftedRow_lt hrow
  have hend : (uniformTimes count start step)[(uniformTimes count start step).size - 1]? =
      some (Number.ofInt (start + ((count - 1 : Nat) : Int) * step)) := by
    rw [size_uniformTimes]
    exact htime hlast
  have hmono : Monotone fun i : Int => nearestRank (i * unitsPerOne) := fun i j hij =>
    Number.nearestRank_mono (Int.mul_le_mul_of_nonneg_right hij (Int.natCast_nonneg _))
  unfold Shift.row
  dsimp only
  rw [htime hrow, Option.getD_some]
  refine nearestTime_on (h.ascending hstep) (htime hfirst) hend
    (Number.isNumber_add (hexact hrow).finite hs.finite) (htime hshifted) ?_ ?_
  · -- The sum may be rounded, but not past a time that it was not past before.
    show Number.rank _ = min (max (Number.rank _) (Number.rank _)) (Number.rank _)
    rw [(hexact hrow).rank_add hs, (hexact hshifted).rank_eq, (hexact hfirst).rank_eq,
      (hexact hlast).rank_eq, ← within_steps hstep hrow, hmono.map_min, hmono.map_max]
    simp only [Nat.cast_zero, zero_mul, add_zero]
  · intro row' hlt t ht
    refine ((h.isExactly ht).2.rank_lt_iff (hexact hshifted)).2 ?_
    have hmul : (row' : Int) * step < shiftedRow count row k * step :=
      Int.mul_lt_mul_of_pos_right (Int.ofNat_lt.2 hlt) (by omega)
    omega

theorem row_rows_eq {offset : RowOffset} (h : offset.toInt = k) (times : Array Float) :
    Shift.row (.rows offset) count times row = shiftedRow count row k := by
  unfold Shift.row
  dsimp only
  rw [h]
  rfl

end

/-! ## The values of a reference -/

section
variable {o : EvaluationOptions} {head name suffix suffix' : Text} {statistic : Option Statistic}
  {data : Table Float} {times : Array Float}

theorem eval_only_operand (identifier : Text) (op : Operand) (data : Table Float)
    (times : Array Float) (row : Nat) :
    (Formula.Expr.name identifier).eval (rowScope [(identifier, op)] data times row) =
      .ok (op.value data times row) := by
  have hscope : rowScope [(identifier, op)] data times row identifier =
      some (op.value data times row) := by
    rw [rowScope, Assignment.get?, List.lookup_cons, beq_self_eq_true]
    rfl
  rw [Formula.Expr.eval, Formula.resolve, hscope]

/-- A formula that is one reference is evaluated by reading its operand. -/
theorem ofFormula_of_segments {formula : Text} {r : Reference}
    (h : segments o.toScanOptions formula = [.reference r]) (hid : ¬ r.matched.IsIdentifier)
    (hd : data.size ≠ 0) (b : Bindings) :
    Evaluation.ofFormula o formula b data times =
      match Assignment.get? b r.name with
      | none => .error (.channelNotBound r.name)
      | some column =>
        if isCancelled o.aborted data.size then .error .cancelled
        else .ok (.ofRows data.size fun row =>
          finiteOutcome? (.ok ((Operand.ofReference data r column).value data times row))) := by
  have hidentifier : Assignment.get? [(r.matched, r.matched.toIdentifier)] r.matched =
      some r.matched.toIdentifier := by
    rw [Assignment.get?, List.lookup_cons, beq_self_eq_true]
  unfold Evaluation.ofFormula
  rw [if_neg hd]
  dsimp only
  rw [parse_substitute_of_segments h hid, substitute_of_segments h]
  dsimp only
  rw [operands, operands, hidentifier]
  cases Assignment.get? b r.name with
  | none => rfl
  | some column => simp only [finiteValue?_eq, eval_only_operand]

/-- Of a shift only the row counts to which it leads. -/
theorem value_written {row : Nat} (hrow : (Shift.suffix suffix).shift.row data.size times row =
    (Shift.suffix suffix').shift.row data.size times row) (column : Nat) :
    (Operand.ofReference data (.written head suffix name statistic) column).value data times row =
      (Operand.ofReference data (.written head suffix' name statistic) column).value
        data times row := by
  cases statistic with
  | none =>
    show (data.cell? ((Shift.suffix suffix).shift.row data.size times row) column).getD 0.0 = _
    rw [hrow]
    rfl
  | some statistic => rfl

/-- Two shifts of one reference that lead to the same rows have the same values. -/
theorem ofFormula_eq_of_rows (h : IsHead o.toScanOptions head name statistic)
    (hs : IsSuffix suffix) (hs' : IsSuffix suffix')
    (hrows : ∀ row < data.size, (Shift.suffix suffix).shift.row data.size times row =
      (Shift.suffix suffix').shift.row data.size times row) (b : Bindings) :
    Evaluation.ofFormula o (head ++ suffix) b data times =
      Evaluation.ofFormula o (head ++ suffix') b data times := by
  by_cases hd : data.size = 0
  · rw [Evaluation.ofFormula_of_empty hd, Evaluation.ofFormula_of_empty hd]
  · rw [ofFormula_of_segments (h.segments_eq hs) (hs.not_isIdentifier head) hd,
      ofFormula_of_segments (h.segments_eq hs') (hs'.not_isIdentifier head) hd]
    show (match Assignment.get? b name with | none => _ | some column => _) =
      (match Assignment.get? b name with | none => _ | some column => _)
    cases Assignment.get? b name with
    | none => rfl
    | some column =>
      dsimp only
      split
      · rfl
      · refine congrArg Except.ok (Evaluation.ofRows_congr fun row hrow => ?_)
        rw [value_written (hrows row hrow)]

end

/-! ## Two ways to write a shift -/

theorem isSuffix_rows {t : Text} {i : Int} (h : Numeral.IsWhole t i) :
    IsSuffix (Shift.openBracket :: (t ++ [Shift.closeBracket])) := by
  refine ⟨?_, _, _, rfl, by decide⟩
  rw [h.suffix_rows, List.length_cons, List.length_append]
  rfl

theorem isSuffix_seconds {t : Text} {i : Int} (h : Numeral.IsWhole t i) :
    IsSuffix (Shift.atSign :: (t ++ [Shift.secondsMark])) := by
  refine ⟨?_, _, _, rfl, by decide⟩
  rw [h.suffix_seconds, List.length_cons, List.length_append]
  rfl

/-- A reference to a bound name has values unless the evaluation is called off. -/
theorem isOk_evaluate_of_segments {o : EvaluationOptions} {formula : Text} {r : Reference}
    (h : segments o.toScanOptions formula = [.reference r]) (hid : ¬ r.matched.IsIdentifier)
    {b : Bindings} (hb : (Assignment.get? b r.name).isSome = true) {data : Table Float}
    (hc : isCancelled o.aborted data.size = false) (times : Array Float) :
    (evaluate o formula b data times).isOk = true := by
  unfold evaluate
  by_cases hd : data.size = 0
  · rw [Evaluation.ofFormula_of_empty hd]
    rfl
  · obtain ⟨column, hcolumn⟩ := Option.isSome_iff_exists.1 hb
    rw [ofFormula_of_segments h hid hd, hcolumn, hc]
    rfl

/-- Where the times go on by equal steps, `k` steps in seconds lead to the row that `k` rows lead
to; so a reference has the same values whichever way its shift is written. -/
theorem uniform_shifts_agree {count : Nat} {start step k : Int} (hstep : 1 ≤ step)
    (htimes : ExactTimes count start step) (hshift : (k * step).natAbs < exactLimit) :
    (∀ row < count,
      Shift.row (.seconds (Number.ofInt (k * step))) count (uniformTimes count start step) row =
        shiftedRow count row k ∧
      Shift.row (.rows ⟨k < 0, k.natAbs⟩) count (uniformTimes count start step) row =
        shiftedRow count row k) ∧
    (-2147483648 ≤ k → k ≤ 2147483647 →
      ∀ {o : EvaluationOptions} {head name rows seconds : Text} {statistic : Option Statistic}
        {b : Bindings} {data : Table Float}, IsHead o.toScanOptions head name statistic →
        Numeral.IsWhole rows k → Numeral.IsWhole seconds (k * step) → data.size = count →
        evaluate o (head ++ Shift.atSign :: (seconds ++ [Shift.secondsMark])) b data
            (uniformTimes count start step) =
          evaluate o (head ++ Shift.openBracket :: (rows ++ [Shift.closeBracket])) b data
            (uniformTimes count start step) ∧
        ((Assignment.get? b name).isSome = true → isCancelled o.aborted count = false →
          (evaluate o (head ++ Shift.openBracket :: (rows ++ [Shift.closeBracket])) b data
            (uniformTimes count start step)).isOk = true)) := by
  constructor
  · intro row hrow
    refine ⟨row_seconds_uniform htimes hstep hrow (Number.isExactly_ofInt hshift), ?_⟩
    refine row_rows_eq ?_ _
    unfold RowOffset.toInt
    by_cases hneg : k < 0
    · rw [decide_eq_true hneg, if_pos rfl]
      dsimp only
      omega
    · rw [decide_eq_false hneg, if_neg Bool.false_ne_true]
      dsimp only
      omega
  · rintro hleast hmost o head name rows seconds statistic b data hhead hrows hseconds rfl
    obtain ⟨offset, hoffset, hvalue⟩ := hrows.exists_rows hleast hmost
    obtain ⟨s, hs, hexact⟩ := hseconds.exists_seconds hshift
    have hsuffix := isSuffix_rows hrows
    constructor
    · unfold evaluate
      rw [ofFormula_eq_of_rows hhead (isSuffix_seconds hseconds) hsuffix]
      intro row hrow
      rw [hrows.suffix_rows, hseconds.suffix_seconds, hoffset, hs, row_rows_eq hvalue]
      exact row_seconds_uniform htimes hstep hrow hexact
    · intro hb hc
      exact isOk_evaluate_of_segments (hhead.segments_eq hsuffix) (hsuffix.not_isIdentifier head)
        hb hc _

/-- Two rows back and four seconds back, where the first rows have no such row. -/
theorem uniform_shifts_agree_two_back :
    ExactTimes 4 (-3) 2 ∧
      Shift.row (.seconds (Number.ofInt (-2 * 2))) 4 (uniformTimes 4 (-3) 2) 1 = 0 ∧
      Shift.row (.seconds (Number.ofInt (-2 * 2))) 4 (uniformTimes 4 (-3) 2) 3 = 1 ∧
      evaluate {} "RPM@-4s" [("RPM", 0)] #[#[1.0], #[3.0], #[], #[7.0]] (uniformTimes 4 (-3) 2) =
        evaluate {} "RPM[-2]" [("RPM", 0)] #[#[1.0], #[3.0], #[], #[7.0]]
          (uniformTimes 4 (-3) 2) ∧
      (evaluate {} "RPM[-2]" [("RPM", 0)] #[#[1.0], #[3.0], #[], #[7.0]]
        (uniformTimes 4 (-3) 2)).isOk = true := by
  have htimes : ExactTimes 4 (-3) 2 := by
    intro row hrow
    unfold exactLimit Number.leadingBit
    omega
  obtain ⟨hrow, hvalues⟩ := uniform_shifts_agree (k := -2) (by decide) htimes (by decide)
  have hhead : IsHead {} "RPM" "RPM" none :=
    .sample ⟨0x52, [0x50, 0x4D], rfl, by decide, List.all_eq_true.1 (by decide)⟩ (by decide)
      (by decide)
  have hminus : Decimal.isSign 0x2D = true := by decide
  have hdigits : Numeral.Digits "2" ∧ Numeral.Digits "4" :=
    ⟨List.all_eq_true.1 (by decide), List.all_eq_true.1 (by decide)⟩
  have hrows : Numeral.IsWhole "-2" (-2) := .signed hminus hdigits.1 (by decide)
  have hseconds : Numeral.IsWhole "-4" (-2 * 2) := .signed hminus hdigits.2 (by decide)
  obtain ⟨hsame, hok⟩ := @hvalues (by decide) (by decide) {} "RPM" "RPM" "-2" "-4" none [("RPM", 0)]
    #[#[1.0], #[3.0], #[], #[7.0]] hhead hrows hseconds rfl
  exact ⟨htimes, (hrow 1 (by decide)).1, (hrow 3 (by decide)).1, hsame,
    hok (by decide) (isCancelled_never 4)⟩

end VirtualChannels
