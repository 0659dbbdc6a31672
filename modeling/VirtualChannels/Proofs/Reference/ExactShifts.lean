import VirtualChannels.Proofs.Reference.FixedPoint
import VirtualChannels.Proofs.Reference.Placement
import VirtualChannels.Proofs.Reference.SingleReference

/-
  Shifts by exactly the numbers that are written. A whole number of rows counts if it fits 32
  bits (`Numeral.IsWhole.ofRowText_eq`): below 2^53 the double that it is read as is the number
  itself, and from there on no double is so small again. Seconds are the nearest double to the
  number (`Numeral.IsFixed.exists_ofSecondsText`). The suffix is part of the matched text either
  way (`readsShift_of_suffix`).
-/

namespace VirtualChannels

open Numeral (IsWhole IsFixed Digits)

/-! ## Rows -/

namespace Numeral.IsWhole

variable {t : Text} {i : Int}

/-- A whole number has no fraction. -/
theorem exists_sign (h : IsWhole t i) : ∃ sign ds negative, IsSign sign negative ∧ Digits ds ∧
    ds ≠ [] ∧ t = sign ++ (ds ++ []) ∧ i = Number.signed negative (Decimal.digitsValue ds) ∧
    (t.head? == some Decimal.minus) = negative := by
  cases h with
  | @unsigned ds hd hne =>
    obtain ⟨u, rest, rfl⟩ := List.exists_cons_of_ne_nil hne
    refine ⟨[], u :: rest, false, .none, hd, hne, by simp, rfl, ?_⟩
    have hu := isSign_of_isDigit (hd u List.mem_cons_self)
    refine beq_eq_false_iff_ne.2 fun heq => ?_
    rw [Option.some.inj heq] at hu
    cases hu
  | @signed sign ds hs hd hne =>
    rcases Bool.or_eq_true_iff.1 hs with hplus | hminus
    · rw [eq_of_beq hplus]
      exact ⟨[Decimal.plus], ds, false, .plus, hd, hne, by simp, rfl, rfl⟩
    · rw [eq_of_beq hminus]
      exact ⟨[Decimal.minus], ds, true, .minus, hd, hne, by simp, rfl, rfl⟩

theorem read?_eq (h : IsWhole t i) : Number.read? t =
    some (Number.nearest (t.head? == some Decimal.minus) i.natAbs 1) := by
  obtain ⟨sign, ds, negative, hs, hd, hne, rfl, rfl, hsign⟩ := h.exists_sign
  have hone : Decimal.digitsValue ds * Nat.pow 10 0 = Decimal.digitsValue ds := Nat.mul_one _
  rw [hsign, read?_fixed hs hd hne .none, Number.natAbs_signed, Decimal.toFloat_eq,
    Decimal.magnitude_eq, List.append_nil]
  show some (Number.withSign negative (Number.nearestBits (Decimal.digitsValue ds * Nat.pow 10 0) 1)) = _
  rw [hone]
  rfl

end Numeral.IsWhole

theorem RowOffset.inRange_iff (negative : Bool) (n : Nat) :
    inRange ⟨negative, n⟩ = true ↔
      -2147483648 ≤ Number.signed negative n ∧ Number.signed negative n ≤ 2147483647 := by
  unfold inRange Number.signed
  rw [decide_eq_true_iff]
  cases negative with
  | false =>
    show n ≤ 2147483647 ↔ -2147483648 ≤ (n : Int) ∧ (n : Int) ≤ 2147483647
    omega
  | true =>
    show n ≤ 2147483648 ↔ -2147483648 ≤ -(n : Int) ∧ -(n : Int) ≤ 2147483647
    omega

/-- A whole number from 2^53 on may be rounded, but not to one below. -/
theorem Number.le_wholeUnits_nearest (negative : Bool) {n : Nat} (h : exactLimit ≤ n) :
    exactLimit - 1 ≤ wholeUnits (nearest negative n 1) := by
  have hexact := (nearestBits_whole (n := exactLimit - 1) (by decide)).2
  have hmono := unitsOfBits_strictMono.monotone (nearestBits_mono 1 (Nat.le_trans (Nat.sub_le _ 1) h))
  rw [hexact] at hmono
  unfold wholeUnits units nearest
  rw [magnitudeBits_withSign negative (nearestBits_le n 1)]
  exact (Nat.le_div_iff_mul_le unitsPerOne_pos).2 hmono

theorem Numeral.IsWhole.signed_natAbs {t : Text} {i : Int} (h : IsWhole t i) :
    Number.signed (t.head? == some Decimal.minus) i.natAbs = i := by
  obtain ⟨sign, ds, negative, -, -, -, -, rfl, hsign⟩ := h.exists_sign
  rw [hsign, Number.natAbs_signed]

/-- The shift of a whole number of rows is that number, with its sign also where it is zero, if
it fits 32 bits, and no shift otherwise. -/
theorem Numeral.IsWhole.ofRowText_eq {t : Text} {i : Int} (h : IsWhole t i) :
    Shift.ofRowText t =
      if -2147483648 ≤ i ∧ i ≤ 2147483647 then .rows ⟨t.head? == some Decimal.minus, i.natAbs⟩
      else .none := by
  have hrange := RowOffset.inRange_iff (t.head? == some Decimal.minus) i.natAbs
  rw [h.signed_natAbs] at hrange
  unfold Shift.ofRowText
  rw [h.read?_eq]
  dsimp only
  have hnegative : Number.isNegative (Number.nearest (t.head? == some Decimal.minus) i.natAbs 1) =
      (t.head? == some Decimal.minus) := Number.isNegative_withSign _ (Number.nearestBits_le _ _)
  rw [hnegative]
  by_cases hlimit : i.natAbs < Number.exactLimit
  · have hexact := Number.isExactly_nearest (t.head? == some Decimal.minus) hlimit
    have hunits : Number.wholeUnits (Number.nearest (t.head? == some Decimal.minus) i.natAbs 1) =
        i.natAbs := by
      have hvalue := congrArg Int.natAbs hexact.signed_wholeUnits
      rwa [Number.natAbs_signed, Number.natAbs_signed] at hvalue
    rw [hexact.isWhole, hunits, Bool.true_and]
    exact if_congr hrange rfl rfl
  · have hunits := Number.le_wholeUnits_nearest (t.head? == some Decimal.minus)
      (Nat.le_of_not_lt hlimit)
    have hnot : RowOffset.inRange ⟨t.head? == some Decimal.minus,
        Number.wholeUnits (Number.nearest (t.head? == some Decimal.minus) i.natAbs 1)⟩ = false := by
      have hlarge : 2147483648 < Number.exactLimit - 1 := by decide
      refine decide_eq_false fun hle => ?_
      dsimp only at hle
      split at hle
      · omega
      · omega
    have hnot' : ¬ (-2147483648 ≤ i ∧ i ≤ 2147483647) := by
      unfold Number.exactLimit Number.leadingBit at hlimit
      omega
    rw [hnot, Bool.and_false, if_neg hnot']
    rfl

/-! ## Seconds -/

theorem Numeral.IsFixed.isSeconds {t : Text} {negative : Bool} {v : ℚ} (h : IsFixed t negative v) :
    Shift.IsSeconds t := by
  cases h with
  | @mk sign ds p fs _ hs hd hne hp =>
    obtain ⟨i, hwhole⟩ : ∃ i, IsWhole (sign ++ ds) i := by
      cases hs with
      | none => exact ⟨_, .unsigned hd hne⟩
      | plus => exact ⟨_, .signed rfl hd hne⟩
      | minus => exact ⟨_, .signed rfl hd hne⟩
    cases hp with
    | none =>
      rw [List.append_nil]
      exact .whole hwhole
    | pointed hf =>
      rw [← List.append_assoc]
      exact .pointed hwhole hf

theorem Shift.IsSeconds.exists_isFixed {t : Text} (h : IsSeconds t) :
    ∃ negative v, IsFixed t negative v := by
  cases h with
  | whole h =>
    obtain ⟨sign, ds, negative, hs, hd, hne, rfl, -⟩ := h.exists_sign
    exact ⟨_, _, .mk hs hd hne .none⟩
  | pointed h hf =>
    obtain ⟨sign, ds, negative, hs, hd, hne, rfl, -⟩ := h.exists_sign
    rw [List.append_nil, List.append_assoc]
    exact ⟨_, _, .mk hs hd hne (.pointed hf)⟩

/-- The shift of a number of seconds is the nearest double, with its sign, if that is finite,
and no shift otherwise. -/
theorem Numeral.IsFixed.exists_ofSecondsText {t : Text} {negative : Bool} {v : ℚ}
    (h : IsFixed t negative v) : ∃ x, Number.IsNearestTo (Number.signedRat negative v) x ∧
      Number.isNegative x = negative ∧
      Shift.ofSecondsText t = if Number.isFinite x then .seconds x else .none := by
  obtain ⟨x, hread, hnearest, hsign⟩ := h.exists_read?
  refine ⟨x, hnearest, hsign, ?_⟩
  unfold Shift.ofSecondsText
  rw [hread]

/-! ## Suffixes -/

/-- What a reference that is written with a name or a quoted name makes of the text after it. A
whole number in brackets belongs to it, and is the shift by exactly so many rows if it fits 32
bits. A number between `@` and `s` belongs to it, and is the shift by the nearest double if that
is finite. Nothing else belongs to it. -/
structure ReadsShift (head after : Text) (r : Reference) : Prop where
  rows : ∀ t i x, IsWhole t i → after = Shift.openBracket :: (t ++ Shift.closeBracket :: x) →
    r.matched = head ++ Shift.openBracket :: (t ++ [Shift.closeBracket]) ∧
    ∃ offset : RowOffset, offset.toInt = i ∧
      r.shift = if -2147483648 ≤ i ∧ i ≤ 2147483647 then .rows offset else .none
  seconds : ∀ t negative v x, IsFixed t negative v →
    after = Shift.atSign :: (t ++ Shift.secondsMark :: x) →
    r.matched = head ++ Shift.atSign :: (t ++ [Shift.secondsMark]) ∧
    ∃ s, Number.IsNearestTo (Number.signedRat negative v) s ∧ Number.isNegative s = negative ∧
      r.shift = if Number.isFinite s then .seconds s else .none
  none : (∀ t i, IsWhole t i → ¬ Shift.openBracket :: (t ++ [Shift.closeBracket]) <+: after) →
    (∀ t negative v, IsFixed t negative v →
      ¬ Shift.atSign :: (t ++ [Shift.secondsMark]) <+: after) →
    r.matched = head ∧ r.shift = .none

theorem take_marked (u v : CodeUnit) (t x : Text) :
    (u :: (t ++ v :: x)).take (t.length + 2) = u :: (t ++ [v]) := by
  have hsplit : u :: (t ++ v :: x) = (u :: (t ++ [v])) ++ x := by simp
  have hlength : t.length + 2 = (u :: (t ++ [v])).length := by simp
  rw [hsplit, hlength, List.take_left]

theorem Shift.suffix_eq_none {after : Text} (h : ∀ p, IsWritten p → ¬ p <+: after) :
    suffix after = ⟨0, .none⟩ := by
  rcases suffix_cases after with ⟨u, rest, number, rfl, hr, heq⟩ |
    ⟨u, rest, number, rfl, -, hs, heq⟩ | heq
  · exact absurd (List.take_prefix _ _) (h _ (rowText?_written hr))
  · exact absurd (List.take_prefix _ _) (h _ (secondsText?_written hs))
  · exact heq

/-- A reference that takes the suffix that is read. -/
theorem readsShift_of_suffix {head after : Text} {r : Reference}
    (hmatched : r.matched = head ++ after.take (Shift.suffix after).length)
    (hshift : r.shift = (Shift.suffix after).shift) : ReadsShift head after r := by
  refine ⟨fun t i x hwhole hafter => ?_, fun t negative v x hfixed hafter => ?_, fun hrows hseconds => ?_⟩
  · rw [hafter, hwhole.suffix_rows x] at hmatched hshift
    rw [take_marked] at hmatched
    exact ⟨hmatched, ⟨t.head? == some Decimal.minus, i.natAbs⟩, hwhole.signed_natAbs,
      hshift.trans hwhole.ofRowText_eq⟩
  · rw [hafter, hfixed.isSeconds.suffix_eq x] at hmatched hshift
    rw [take_marked] at hmatched
    obtain ⟨s, hnearest, hsign, hs⟩ := hfixed.exists_ofSecondsText
    exact ⟨hmatched, s, hnearest, hsign, hshift.trans hs⟩
  · have hnone : Shift.suffix after = ⟨0, .none⟩ := by
      refine Shift.suffix_eq_none fun p hp => ?_
      cases hp with
      | rows hwhole => exact hrows _ _ hwhole
      | seconds hs =>
        obtain ⟨negative, v, hfixed⟩ := hs.exists_isFixed
        exact hseconds _ _ _ hfixed
    rw [hnone] at hmatched hshift
    exact ⟨hmatched.trans (List.append_nil head), hshift⟩

/-- A piece that is a reference to a sample is a head and the suffix that is read after it. -/
theorem Piece.Cut.exists_head {o : ScanOptions} {p : Piece} {x : Text} {r : Reference}
    (h : p.Cut x) (hr : p.segment o = .reference r) (hs : r.statistic = none) :
    ∃ head after, IsHead o head r.name none ∧ p.text ++ x = head ++ after ∧
      r.matched = head ++ after.take (Shift.suffix after).length ∧
      r.shift = (Shift.suffix after).shift := by
  cases h with
  | emptyPair | numeral | mark | unit => cases hr
  | @pair name suffix x hne hname hlongest =>
    obtain ⟨halone, hlength⟩ := Piece.suffix_append hlongest
    rw [Piece.segment, if_neg hne] at hr
    cases hr
    refine ⟨name.quoted, suffix ++ x, .quoted hne hname, List.append_assoc _ _ _, ?_, ?_⟩
    · rw [halone, hlength, List.take_left]
    · rw [halone]
  | @named identifier suffix x hne hi hlongest =>
    obtain ⟨halone, hlength⟩ := Piece.suffix_append hlongest
    obtain ⟨hid, -⟩ := hi.stops hne
    unfold Piece.segment Segment.named at hr
    dsimp only at hr
    split at hr
    · cases hr
    · rename_i hreserved
      split at hr
      · cases hr
        cases hs
      · rename_i hstatistic
        cases hr
        refine ⟨identifier, suffix ++ x,
          .sample hid (Bool.eq_false_iff.2 hreserved) hstatistic, List.append_assoc _ _ _, ?_, ?_⟩
        · rw [halone, hlength, List.take_length, List.take_left]
        · rw [halone]

/-- Every occurrence of a reference that is not a statistic has a name or a quoted name, and
reads its shift from the text after it, exactly. -/
theorem occurrence_reads_shift {o : ScanOptions} {formula : Text} {c : Occurrence}
    (h : c ∈ occurrences o formula) (hs : c.reference.statistic = none) :
    ∃ head after, IsHead o head c.reference.name none ∧ formula.drop c.start = head ++ after ∧
      ReadsShift head after c.reference := by
  obtain ⟨ps, hps⟩ := exists_cutInto formula
  obtain ⟨start, p, r, hp, hr, rfl⟩ := (Piece.mem_occurrences hps).1 h
  obtain ⟨x, hdrop, hcut⟩ := Piece.drop_of_mem_placed hps List.drop_zero hp
  obtain ⟨head, after, hhead, htext, hmatched, hshift⟩ := hcut.exists_head hr hs
  exact ⟨head, after, hhead, hdrop.trans htext, readsShift_of_suffix hmatched hshift⟩

/-- Leading zeros and a plus sign do not count: the largest shift that fits 32 bits, in front of a
constant with a suffix. -/
theorem occurrence_reads_last_row : ∃ c ∈ occurrences {} "\"RPM\"[+0002147483647]-e[2147483648]",
    c.start = 0 ∧ c.reference.statistic = none ∧
    c.reference.matched = "\"RPM\"[+0002147483647]" ∧
    ∃ offset : RowOffset, offset.toInt = 2147483647 ∧ c.reference.shift = .rows offset := by
  have hread : ((0, "RPM", none) : Nat × Text × Option Statistic) ∈
      (occurrences {} "\"RPM\"[+0002147483647]-e[2147483648]").map
        fun c => (c.start, c.reference.name, c.reference.statistic) := by
    decide +kernel
  obtain ⟨c, hc, heq⟩ := List.mem_map.1 hread
  obtain ⟨hstart, hname, hs⟩ : c.start = 0 ∧ c.reference.name = "RPM" ∧
      c.reference.statistic = none := by
    simpa using heq
  obtain ⟨head, after, hhead, htext, hreads⟩ := occurrence_reads_shift hc hs
  rw [hname] at hhead
  rw [hstart, List.drop_zero] at htext
  have hwhole : IsWhole "+0002147483647" 2147483647 :=
    .signed rfl (List.all_eq_true.1 (by decide +kernel)) (by decide)
  have hsplit : ("\"RPM\"[+0002147483647]-e[2147483648]" : Text) = Text.quoted "RPM" ++
      (Shift.openBracket :: ("+0002147483647" ++ Shift.closeBracket :: "-e[2147483648]")) := by
    decide +kernel
  cases hhead with
  | quoted =>
    have hafter := List.append_cancel_left (htext.symm.trans hsplit)
    obtain ⟨hmatched, offset, hoffset, hshift⟩ := hreads.rows _ _ _ hwhole hafter
    exact ⟨c, hc, hstart, hs, hmatched.trans (by decide +kernel), offset, hoffset, hshift⟩
  | sample =>
    have hhead := congrArg List.head? htext
    rw [List.head?_append_of_ne_nil (Text.ofString "RPM") (by decide +kernel)] at hhead
    exact absurd hhead (by decide +kernel)

end VirtualChannels
