import VirtualChannels.Proofs.Number.WholeNumbers
import VirtualChannels.Proofs.Reference.Matched
import VirtualChannels.Recording.Records

/-
  The rows that are read. Bisection stays within its interval whatever the comparisons say, so
  the row nearest to a target is a row of the recording (`nearestTime_lt`), though times may go
  back or be no numbers. A shift leads to a row of the recording too (`Shift.row_lt`), and so
  few rows as a formula can ask for are added without rounding (`isExactly_clampedRow`).
-/

namespace VirtualChannels

open Number (IsExactly exactLimit)

/-! ## The search -/

/-- Bisection tests no place outside its interval. -/
theorem bisect_congr {holds holds' : Nat → Bool} {low high : Nat}
    (h : ∀ i, low ≤ i → i < high → holds i = holds' i) :
    bisect holds low high = bisect holds' low high := by
  fun_induction bisect holds low high with
  | case1 low high hlt middle hm ih =>
    have hm' : holds' middle = true := (h middle (by omega) (by omega)).symm.trans hm
    rw [ih fun i hlow hhigh => h i (by omega) hhigh, bisect.eq_1 holds' low high, if_pos hlt]
    exact (if_pos hm').symm
  | case2 low high hlt middle hm ih =>
    have hm' : ¬ holds' middle = true := h middle (by omega) (by omega) ▸ hm
    rw [ih fun i hlow hhigh => h i hlow (by omega), bisect.eq_1 holds' low high, if_pos hlt]
    exact (if_neg hm').symm
  | case3 low high hge => rw [bisect.eq_1 holds' low high, if_neg hge]

section
variable {α : Type} [Scalar α]

/-- What a missing row would say makes no difference, as no missing row is looked at. -/
theorem firstNotBefore_eq_getD (times : Array α) (time : α) (otherwise : Bool) :
    firstNotBefore times time =
      bisect (fun row => (times[row]?.map fun t => Scalar.less t time).getD otherwise) 0
        times.size := by
  refine bisect_congr fun row _ hrow => ?_
  rw [Array.getElem?_eq_getElem hrow]
  rfl

theorem nearestWithin_lt {times : Array α} (h : times.size ≠ 0) (time : α) :
    nearestWithin times time < times.size := by
  unfold nearestWithin
  dsimp only
  split
  · omega
  · rename_i t ht
    have hrow : firstNotBefore times time < times.size := (Array.getElem?_eq_some_iff.1 ht).1
    split
    · exact hrow
    · split
      · exact Nat.lt_of_le_of_lt (Nat.sub_le _ _) hrow
      · exact hrow

/-- No order of the times and no law of the arithmetic is needed. -/
theorem nearestTime_lt {times : Array α} (h : times.size ≠ 0) (target : α) :
    nearestTime times target < times.size := by
  unfold nearestTime
  split
  · exact nearestWithin_lt h _
  · exact Nat.pos_of_ne_zero h

theorem nearestTime_of_empty {times : Array α} (h : times.size = 0) (target : α) :
    nearestTime times target = 0 := by
  unfold nearestTime
  rw [Array.getElem?_eq_none (Nat.le_of_eq h)]

end

/-! ## Shifts -/

section
variable {count row : Nat}

/-- Every shift keeps to the rows, if there are as many times. -/
theorem Shift.row_lt {times : Array Float} (htimes : times.size = count) (hrow : row < count)
    (shift : Shift) : shift.row count times row < count := by
  cases shift with
  | none => exact hrow
  | rows offset =>
    unfold Shift.row
    dsimp only
    omega
  | seconds s =>
    have hne : times.size ≠ 0 := by omega
    exact Nat.lt_of_lt_of_eq (nearestTime_lt hne _) htimes

theorem RowOffset.within_32_bits {offset : RowOffset} (h : offset.inRange = true) :
    -2147483648 ≤ offset.toInt ∧ offset.toInt ≤ 2147483647 := by
  obtain ⟨backward, rows⟩ := offset
  unfold RowOffset.inRange at h
  unfold RowOffset.toInt
  cases backward with
  | true =>
    have hrows : rows ≤ 2147483648 := of_decide_eq_true h
    simp only [if_true]
    omega
  | false =>
    have hrows : rows ≤ 2147483647 := of_decide_eq_true h
    simp only [Bool.false_eq_true, if_false]
    omega

/-- The row so many rows away, computed with doubles: the sum is brought between zero and the last
row. -/
def clampedRow (count row : Nat) (offset : Float) : Float :=
  Number.lesser (Number.greater (Number.ofInt row + offset) (Number.ofInt 0))
    (Number.ofInt ((count - 1 : Nat) : Int))

/-- An offset of 32 bits is added to a row without rounding, so doubles compute the row itself. -/
theorem isExactly_clampedRow {offset : RowOffset} (h : offset.inRange = true)
    (hcount : count ≤ Number.leadingBit) (hrow : row < count) {x : Float}
    (hx : IsExactly x offset.toInt) (times : Array Float) :
    IsExactly (clampedRow count row x) (Shift.row (.rows offset) count times row) := by
  obtain ⟨hleast, hmost⟩ := RowOffset.within_32_bits h
  have hlimit {i : Int} (hi : i.natAbs ≤ Number.leadingBit + 2147483648) :
      i.natAbs < exactLimit := by
    unfold exactLimit
    unfold Number.leadingBit at hi ⊢
    omega
  have hfrom := Number.isExactly_ofInt (hlimit (i := (row : Int)) (by omega))
  have hsum := hfrom.add hx (hlimit (by omega))
  have hfirst := Number.isExactly_ofInt (hlimit (i := 0) (by omega))
  have hlast := Number.isExactly_ofInt (hlimit (i := ((count - 1 : Nat) : Int)) (by omega))
  have hclamp : min (max (row + offset.toInt) 0) ((count - 1 : Nat) : Int) =
      (Shift.row (.rows offset) count times row : Int) := by
    unfold Shift.row
    dsimp only
    omega
  rw [← hclamp]
  exact (hsum.greater hfirst).lesser hlast

end

/-- Every row that is read exists. The search ends at a row, if there is one, whatever the times and
the target are, and looks at none that is missing. What a formula can ask for leads from a row of a
recording to a row of it: the only cell that may be missing is one of a column, and where rows are
counted, doubles count them exactly. -/
theorem rows_read_exist :
    (∀ {α : Type} [Scalar α] (times : Array α) (target : α),
      (times.size ≠ 0 → nearestTime times target < times.size) ∧
      (times.size = 0 → nearestTime times target = 0) ∧
      ∀ otherwise, firstNotBefore times target =
        bisect (fun row => (times[row]?.map fun t => Scalar.less t target).getD otherwise) 0
          times.size) ∧
    ∀ (o : ScanOptions) (formula : Text), ∀ r ∈ references o formula,
      r.shift.Usable ∧
      ∀ (data : Table Float) (times : Array Float), times.size = data.size → ∀ row < data.size,
        r.shift.row data.size times row < data.size ∧
        (∃ cells, data[r.shift.row data.size times row]? = some cells ∧
          ∀ column, (Operand.sample column r.shift).value data times row =
            cells[column]?.getD 0.0) ∧
        ∀ offset x, r.shift = .rows offset → data.size ≤ Number.leadingBit →
          IsExactly x offset.toInt →
          IsExactly (clampedRow data.size row x) (r.shift.row data.size times row) := by
  constructor
  · intro α _ times target
    exact ⟨fun h => nearestTime_lt h target, fun h => nearestTime_of_empty h target,
      firstNotBefore_eq_getD times target⟩
  · intro o formula r hr
    have husable := usable_of_mem_references hr
    refine ⟨husable, fun data times htimes row hrow => ?_⟩
    have hlt := Shift.row_lt htimes hrow r.shift
    refine ⟨hlt, ⟨data[r.shift.row data.size times row], Array.getElem?_eq_getElem hlt, ?_⟩, ?_⟩
    · intro column
      unfold Operand.value Table.cell?
      dsimp only
      rw [Array.getElem?_eq_getElem hlt, Option.bind_some]
    · intro offset x hoffset hcount hx
      rw [hoffset] at husable ⊢
      cases husable with
      | rows h => exact isExactly_clampedRow h hcount hrow hx times

/-- Ninety-nine rows back and half a second back, where the times go back and one is no number. -/
theorem rows_read_exist_out_of_order :
    nearestTime #[Number.notANumber, 5.0, 1.0] 3.0 < 3 ∧ nearestTime #[] 3.0 = 0 ∧
    (∃ r ∈ references {} "RPM[-99]+Boost@-0.5s", ∃ offset : RowOffset,
      r.shift = .rows offset ∧ offset.toInt = -99 ∧
      r.shift.row 3 #[Number.notANumber, 5.0, 1.0] 1 < 3 ∧
      IsExactly (clampedRow 3 1 (Number.ofInt (-99)))
        (r.shift.row 3 #[Number.notANumber, 5.0, 1.0] 1)) ∧
    ∃ r ∈ references {} "RPM[-99]+Boost@-0.5s", ∃ s, r.shift = .seconds s ∧
      r.shift.row 3 #[Number.notANumber, 5.0, 1.0] 1 < 3 := by
  obtain ⟨hsearch, hread⟩ := rows_read_exist
  have hread := hread {} "RPM[-99]+Boost@-0.5s"
  have hrows : (references {} "RPM[-99]+Boost@-0.5s").any (fun r =>
      match r.shift with
      | .rows offset => offset.toInt == -99
      | _ => false) = true := by
    decide +kernel
  have hseconds : (references {} "RPM[-99]+Boost@-0.5s").any (fun r =>
      match r.shift with
      | .seconds _ => true
      | _ => false) = true := by
    decide +kernel
  refine ⟨(hsearch _ 3.0).1 (by decide), (hsearch _ 3.0).2.1 rfl, ?_, ?_⟩
  · obtain ⟨r, hr, hshift⟩ := List.any_eq_true.1 hrows
    obtain ⟨-, hrow⟩ := hread r hr
    obtain ⟨hlt, -, hexact⟩ := hrow #[#[1.0], #[], #[2.0]] #[Number.notANumber, 5.0, 1.0] rfl 1
      (by decide)
    split at hshift
    · rename_i offset hoffset
      have hvalue : offset.toInt = -99 := eq_of_beq hshift
      refine ⟨r, hr, offset, hoffset, hvalue, hlt, hexact offset _ hoffset (by decide) ?_⟩
      rw [hvalue]
      exact Number.isExactly_ofInt (by decide)
    · cases hshift
  · obtain ⟨r, hr, hshift⟩ := List.any_eq_true.1 hseconds
    obtain ⟨-, hrow⟩ := hread r hr
    obtain ⟨hlt, -, -⟩ := hrow #[#[1.0], #[], #[2.0]] #[Number.notANumber, 5.0, 1.0] rfl 1
      (by decide)
    split at hshift
    · rename_i s hs
      exact ⟨r, hr, s, hs, hlt⟩
    · cases hshift

end VirtualChannels
