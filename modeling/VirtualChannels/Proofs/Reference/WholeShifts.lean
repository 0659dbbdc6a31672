import VirtualChannels.Proofs.Formula.Tokens
import VirtualChannels.Proofs.Number.Parts
import VirtualChannels.Proofs.Number.WholeNumbers
import VirtualChannels.Proofs.Reference.Suffixes

/-
  Shifts by whole numbers. A text of digits, with or without a sign, is read as its number
  (`IsWhole.exists_read?`); in brackets it is a shift by so many rows, and between `@` and `s` by so
  many seconds (`IsWhole.exists_rows`, `IsWhole.exists_seconds`).
-/

namespace VirtualChannels

/-- Digits, with or without a sign in front, and the whole number that they denote. -/
inductive Numeral.IsWhole : Text → Int → Prop
  | unsigned {ds : Text} (hd : Digits ds) (hne : ds ≠ []) : IsWhole ds (Decimal.digitsValue ds)
  | signed {sign : CodeUnit} {ds : Text} (hs : Decimal.isSign sign = true) (hd : Digits ds)
      (hne : ds ≠ []) :
      IsWhole (sign :: ds) (Number.signed (sign == Decimal.minus) (Decimal.digitsValue ds))

/-! ## Reading whole numbers -/

theorem Text.trim_of_not_isBlank {t : Text} (h : ∀ u ∈ t, u.isBlank = false) : t.trim = t := by
  have hleft {s : Text} (hs : ∀ u ∈ s, u.isBlank = false) : trimLeft s = s := by
    cases s with
    | nil => rfl
    | cons u s =>
      refine List.dropWhile_cons_of_neg ?_
      rw [hs u List.mem_cons_self]
      exact Bool.false_ne_true
  unfold trim
  rw [hleft h, hleft fun u hu => h u (List.mem_reverse.1 hu), List.reverse_reverse]

theorem CodeUnit.isBlank_of_isSign {u : CodeUnit} (h : Decimal.isSign u = true) :
    u.isBlank = false := by
  rcases Bool.or_eq_true_iff.1 h with h | h
  · rw [eq_of_beq h]
    decide
  · rw [eq_of_beq h]
    decide

namespace Number

theorem baseOf?_of_isDigit {u : CodeUnit} (h : u.isDigit = true) : baseOf? u = none := by
  have hne {v : CodeUnit} (hv : v.isDigit = false) : (u == v) = false := by
    refine beq_eq_false_iff_ne.2 fun heq => ?_
    rw [heq, hv] at h
    cases h
  unfold baseOf?
  rw [hne (by decide), hne (by decide), hne (by decide), hne (by decide), hne (by decide),
    hne (by decide)]
  rfl

/-- Digits for a whole number below 2^53 are read as the number itself. -/
theorem isExactly_toFloat (negative : Bool) {n : Nat} (h : n < exactLimit) :
    IsExactly (Decimal.toFloat ⟨negative, n, 0⟩) (signed negative n) := by
  have hexact := isExactly_nearest negative h
  by_cases hzero : n = 0
  · subst hzero
    rw [nearest_zero] at hexact
    exact hexact
  · have hcount : Decimal.digitCount n ≤ 16 := by
      refine Decimal.digitCount_le (by decide) (Nat.lt_trans h ?_)
      decide
    have hmagnitude : Decimal.magnitude ⟨negative, n, 0⟩ = nearestBits (n * 1) 1 :=
      Decimal.magnitude_eq_nearest hzero (by dsimp only; omega) (by dsimp only; omega)
    rw [Decimal.toFloat_eq, hmagnitude, Nat.mul_one]
    exact hexact

end Number

theorem Decimal.read_of_takeSign {t ds : Text} {negative : Bool} (h : takeSign t = (negative, ds))
    (hd : Numeral.Digits ds) : read t = ⟨negative, digitsValue ds, 0⟩ := by
  have htake : ds.takeWhile CodeUnit.isDigit = ds := by
    have := Text.takeWhile_append_stop (t := []) hd fun _ hu => nomatch hu
    rwa [List.append_nil] at this
  have hdrop : ds.dropWhile CodeUnit.isDigit = [] := by
    rw [← Text.drop_length_takeWhile, htake, List.drop_length]
  unfold read
  rw [h]
  dsimp only
  rw [htake, hdrop]
  dsimp only [takeFraction]
  rw [List.append_nil]
  rfl

namespace Numeral.IsWhole

variable {t : Text} {i : Int}

theorem exists_takeSign (h : IsWhole t i) : ∃ negative ds, Decimal.takeSign t = (negative, ds) ∧
    Digits ds ∧ ds ≠ [] ∧ i = Number.signed negative (Decimal.digitsValue ds) := by
  cases h with
  | unsigned hd hne =>
    obtain ⟨u, rest, rfl⟩ := List.exists_cons_of_ne_nil hne
    refine ⟨false, u :: rest, ?_, hd, hne, rfl⟩
    unfold Decimal.takeSign
    dsimp only
    rw [isSign_of_isDigit (hd u List.mem_cons_self)]
    rfl
  | @signed sign ds hs hd hne =>
    refine ⟨sign == Decimal.minus, ds, ?_, hd, hne, rfl⟩
    unfold Decimal.takeSign
    dsimp only
    rw [hs]
    rfl

theorem isPart (h : IsWhole t i) {u : CodeUnit} (hu : u ∈ t) : Numeral.isPart u = true := by
  cases h with
  | unsigned hd hne => exact isPart_of_isDigit (hd u hu)
  | signed hs hd hne =>
    rcases List.mem_cons.1 hu with rfl | hu
    · simp [Numeral.isPart, hs]
    · exact isPart_of_isDigit (hd u hu)

theorem not_isBlank (h : IsWhole t i) {u : CodeUnit} (hu : u ∈ t) : u.isBlank = false := by
  cases h with
  | unsigned hd hne => exact Formula.isBlank_of_isDigit_or_point (Or.inl (hd u hu))
  | signed hs hd hne =>
    rcases List.mem_cons.1 hu with rfl | hu
    · exact CodeUnit.isBlank_of_isSign hs
    · exact Formula.isBlank_of_isDigit_or_point (Or.inl (hd u hu))

/-- No letter for a base stands behind a zero. -/
theorem read?_eq_readSigned? (h : IsWhole t i) : Number.read? t = Number.readSigned? t := by
  unfold Number.read?
  rw [Text.trim_of_not_isBlank fun u => h.not_isBlank]
  cases h with
  | unsigned hd hne =>
    obtain ⟨u, rest, rfl⟩ := List.exists_cons_of_ne_nil hne
    cases rest with
    | nil => rfl
    | cons v rest =>
      dsimp only
      rw [Number.baseOf?_of_isDigit (hd v (List.mem_cons_of_mem u List.mem_cons_self)), ite_self]
  | @signed sign ds hs hd hne =>
    obtain ⟨v, rest, rfl⟩ := List.exists_cons_of_ne_nil hne
    have hsign : (sign == 0x30) = false := by
      refine beq_eq_false_iff_ne.2 fun heq => ?_
      rw [heq] at hs
      revert hs
      decide
    dsimp only
    rw [hsign]
    rfl

theorem exists_read? (h : IsWhole t i) (hi : i.natAbs < Number.exactLimit) :
    ∃ x, Number.read? t = some x ∧ Number.IsExactly x i := by
  rw [h.read?_eq_readSigned?]
  obtain ⟨negative, ds, hsign, hd, hne, rfl⟩ := h.exists_takeSign
  rw [Number.natAbs_signed] at hi
  refine ⟨_, ?_, Number.isExactly_toFloat negative hi⟩
  have hlength : Numeral.length ds = ds.length := by
    have hle := length_append (.plain (.whole hd hne)) []
    rw [List.append_nil] at hle
    exact Nat.le_antisymm (length_le ds) hle
  have hinfinity : ds ≠ Number.infinityText := by
    rintro rfl
    exact absurd (hd 0x49 (by decide)) (by decide)
  unfold Number.readSigned?
  rw [hsign]
  dsimp only
  rw [if_neg hinfinity, if_pos ⟨hne, hlength⟩, Decimal.read_of_takeSign hsign hd]

/-! ## Suffixes of whole numbers -/

theorem signedDigits_append (h : IsWhole t i) {x : Text} (hx : ∀ u ∈ x.head?, u.isDigit = false) :
    Shift.signedDigits (t ++ x) = t.length := by
  have hrun {ds : Text} (hd : Digits ds) : digitRun (ds ++ x) = ds.length := by
    unfold digitRun
    rw [Text.takeWhile_append_stop hd hx]
  unfold Shift.signedDigits
  cases h with
  | unsigned hd hne =>
    obtain ⟨u, rest, rfl⟩ := List.exists_cons_of_ne_nil hne
    have hu := isSign_of_isDigit (hd u List.mem_cons_self)
    simp only [List.cons_append, List.head?_cons, Option.any_some, hu, Bool.false_eq_true, if_false,
      List.drop_zero]
    rw [← List.cons_append, hrun hd, Nat.zero_add]
    exact if_neg (Nat.succ_ne_zero _)
  | signed hs hd hne =>
    have hpos := List.length_pos_iff.2 hne
    simp only [List.cons_append, List.head?_cons, Option.any_some, hs, if_true,
      List.drop_succ_cons, List.drop_zero, hrun hd, List.length_cons]
    rw [if_neg (Nat.ne_of_gt hpos), Nat.add_comm]

theorem length_ne_zero (h : IsWhole t i) : t.length ≠ 0 := by
  cases h with
  | unsigned hd hne => exact Nat.ne_of_gt (List.length_pos_iff.2 hne)
  | signed hs hd hne => exact Nat.succ_ne_zero _

/-- The suffix for a whole number of rows. -/
theorem suffix_rows (h : IsWhole t i) (x : Text) :
    Shift.suffix (Shift.openBracket :: (t ++ Shift.closeBracket :: x)) =
      ⟨t.length + 2, Shift.ofRowText t⟩ := by
  have hlength := h.signedDigits_append (x := Shift.closeBracket :: x) fun u hu => by
    cases hu
    decide
  have hrows : Shift.rowText? (Shift.openBracket :: (t ++ Shift.closeBracket :: x)) = some t := by
    unfold Shift.rowText?
    dsimp only
    rw [hlength, List.drop_left, List.take_left, if_pos]
    simp [h.length_ne_zero]
  unfold Shift.suffix
  rw [hrows]

/-- The suffix for a whole number of seconds. -/
theorem suffix_seconds (h : IsWhole t i) (x : Text) :
    Shift.suffix (Shift.atSign :: (t ++ Shift.secondsMark :: x)) =
      ⟨t.length + 2, Shift.ofSecondsText t⟩ := by
  have hlength := h.signedDigits_append (x := Shift.secondsMark :: x) fun u hu => by
    cases hu
    decide
  have hpoint : Shift.pointAndDigits (Shift.secondsMark :: x) = 0 := rfl
  have hseconds : Shift.secondsText? (Shift.atSign :: (t ++ Shift.secondsMark :: x)) = some t := by
    unfold Shift.secondsText?
    dsimp only
    rw [hlength, List.drop_left, hpoint, Nat.add_zero, List.drop_left, List.take_left, if_pos]
    simp [h.length_ne_zero]
  unfold Shift.suffix
  rw [Shift.rowText?_eq_none (by decide), hseconds]

/-- A whole number in the range of 32 bits is a number of rows. -/
theorem exists_rows (h : IsWhole t i) (hleast : -2147483648 ≤ i) (hmost : i ≤ 2147483647) :
    ∃ offset, Shift.ofRowText t = .rows offset ∧ offset.toInt = i := by
  obtain ⟨x, hread, hexact⟩ := h.exists_read? (by
    unfold Number.exactLimit Number.leadingBit
    omega)
  have hvalue : (⟨Number.isNegative x, Number.wholeUnits x⟩ : RowOffset).toInt = i :=
    hexact.signed_wholeUnits
  have hrange : (⟨Number.isNegative x, Number.wholeUnits x⟩ : RowOffset).inRange = true := by
    generalize Number.isNegative x = backward at hvalue ⊢
    unfold RowOffset.toInt at hvalue
    unfold RowOffset.inRange
    cases backward with
    | true =>
      have hvalue : -(Number.wholeUnits x : Int) = i := hvalue
      have hrows : Number.wholeUnits x ≤ 2147483648 := by omega
      exact decide_eq_true hrows
    | false =>
      have hvalue : (Number.wholeUnits x : Int) = i := hvalue
      have hrows : Number.wholeUnits x ≤ 2147483647 := by omega
      exact decide_eq_true hrows
  refine ⟨_, ?_, hvalue⟩
  unfold Shift.ofRowText
  rw [hread]
  dsimp only
  rw [hexact.isWhole, hrange]
  rfl

theorem exists_seconds (h : IsWhole t i) (hi : i.natAbs < Number.exactLimit) :
    ∃ s, Shift.ofSecondsText t = .seconds s ∧ Number.IsExactly s i := by
  obtain ⟨x, hread, hexact⟩ := h.exists_read? hi
  refine ⟨x, ?_, hexact⟩
  unfold Shift.ofSecondsText
  rw [hread]
  exact if_pos hexact.finite

end Numeral.IsWhole

end VirtualChannels
