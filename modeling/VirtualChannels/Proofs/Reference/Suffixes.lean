import VirtualChannels.Reference.Basic

/-
  The suffix at the start of a text. It does not depend on what comes behind it
  (`suffix_take_length`), and one that is not empty begins with a bracket or an at sign
  (`suffix_empty_or_head`). Whatever number it holds, its shift is one that can be used
  (`usable_suffix`).
-/

namespace VirtualChannels

theorem Numeral.digitRun_take (t : Text) (n : Nat) :
    digitRun (t.take n) = min n (digitRun t) := by
  rw [digitRun, digitRun, ← List.take_takeWhile, List.length_take]

namespace Shift

theorem signedDigits_take {t : Text} {n : Nat} (h : signedDigits t ≤ n) :
    signedDigits (t.take n) = signedDigits t := by
  cases n with
  | zero =>
    rw [List.take_zero, Nat.le_zero.1 h]
    rfl
  | succ n =>
    have hhead : (t.take (n + 1)).head? = t.head? := by
      rw [List.head?_take, if_neg (Nat.succ_ne_zero n)]
    unfold signedDigits at h ⊢
    rw [hhead]
    dsimp only at h ⊢
    generalize (if t.head?.any Decimal.isSign then 1 else 0) = sign at h ⊢
    rw [List.drop_take, Numeral.digitRun_take]
    by_cases hd : Numeral.digitRun (t.drop sign) = 0
    · rw [hd, Nat.min_zero]
    · rw [if_neg hd] at h
      rw [if_neg hd, Nat.min_eq_right (by omega), if_neg hd]

theorem pointAndDigits_take {t : Text} {n : Nat} (h : pointAndDigits t ≤ n) :
    pointAndDigits (t.take n) = pointAndDigits t := by
  cases t with
  | nil => rw [List.take_nil]
  | cons u rest =>
    cases n with
    | zero =>
      rw [List.take_zero]
      exact (Nat.le_zero.1 h).symm
    | succ n =>
      rw [List.take_succ_cons]
      simp only [pointAndDigits, Numeral.digitRun_take] at h ⊢
      split
      · rename_i hu
        rw [if_pos hu] at h
        omega
      · rfl

theorem lt_length_of_head?_drop {t : Text} {n : Nat} {u : CodeUnit}
    (h : (t.drop n).head? = some u) : n < t.length := by
  rw [List.head?_drop] at h
  exact (List.getElem?_eq_some_iff.1 h).1

/-- The units of the number and the one after it say whether there is a number in brackets. -/
theorem rowText?_eq_some {u : CodeUnit} {rest number : Text}
    (h : rowText? (u :: rest) = some number) :
    u = openBracket ∧ number.length + 1 ≤ rest.length ∧
      ∀ n, number.length + 1 ≤ n → rowText? (u :: rest.take n) = some number := by
  unfold rowText? at h
  dsimp only at h
  split at h
  · rename_i hc
    cases h
    simp only [Bool.and_eq_true, beq_iff_eq] at hc
    obtain ⟨⟨hu, hne⟩, hclose⟩ := hc
    have hlt := lt_length_of_head?_drop hclose
    rw [List.length_take, Nat.min_eq_left (Nat.le_of_lt hlt)]
    refine ⟨hu, hlt, fun n hn => ?_⟩
    have hclose' : ((rest.take n).drop (signedDigits rest)).head? = some closeBracket := by
      rw [List.drop_take, List.head?_take, if_neg (by omega), hclose]
    unfold rowText?
    dsimp only
    rw [signedDigits_take (by omega), hclose', hu, List.take_take, Nat.min_eq_left (by omega)]
    simp [hne]
  · cases h

theorem secondsText?_eq_some {u : CodeUnit} {rest number : Text}
    (h : secondsText? (u :: rest) = some number) :
    u = atSign ∧ number.length + 1 ≤ rest.length ∧
      ∀ n, number.length + 1 ≤ n → secondsText? (u :: rest.take n) = some number := by
  unfold secondsText? at h
  dsimp only at h
  split at h
  · rename_i hc
    cases h
    simp only [Bool.and_eq_true, beq_iff_eq] at hc
    obtain ⟨⟨hu, hne⟩, hmark⟩ := hc
    generalize hlength : signedDigits rest + pointAndDigits (rest.drop (signedDigits rest)) = length
      at hmark ⊢
    have hlt := lt_length_of_head?_drop hmark
    rw [List.length_take, Nat.min_eq_left (Nat.le_of_lt hlt)]
    refine ⟨hu, hlt, fun n hn => ?_⟩
    have hmark' : ((rest.take n).drop length).head? = some secondsMark := by
      rw [List.drop_take, List.head?_take, if_neg (by omega), hmark]
    have hpoint : pointAndDigits ((rest.take n).drop (signedDigits rest)) =
        pointAndDigits (rest.drop (signedDigits rest)) := by
      rw [List.drop_take]
      exact pointAndDigits_take (by omega)
    unfold secondsText?
    dsimp only
    rw [signedDigits_take (by omega), hpoint, hlength, hmark', hu, List.take_take,
      Nat.min_eq_left (by omega)]
    simp [hne]
  · cases h

theorem rowText?_eq_none {u : CodeUnit} (h : u ≠ openBracket) (rest : Text) :
    rowText? (u :: rest) = Option.none := by
  simp [rowText?, h]

/-- A suffix is one of rows, one of seconds, or empty. -/
theorem suffix_cases (t : Text) :
    (∃ u rest number, t = u :: rest ∧ rowText? (u :: rest) = some number ∧
      suffix t = ⟨number.length + 2, ofRowText number⟩) ∨
    (∃ u rest number, t = u :: rest ∧ rowText? (u :: rest) = Option.none ∧
      secondsText? (u :: rest) = some number ∧
      suffix t = ⟨number.length + 2, ofSecondsText number⟩) ∨
    suffix t = ⟨0, none⟩ := by
  cases t with
  | nil => exact Or.inr (Or.inr rfl)
  | cons u rest =>
    unfold suffix
    cases hr : rowText? (u :: rest) with
    | some number => exact Or.inl ⟨u, rest, number, rfl, hr, rfl⟩
    | none =>
      cases hs : secondsText? (u :: rest) with
      | some number => exact Or.inr (Or.inl ⟨u, rest, number, rfl, hr, hs, rfl⟩)
      | none => exact Or.inr (Or.inr rfl)

/-- A suffix is read alike where nothing comes behind it. -/
theorem suffix_take_length (t : Text) : suffix (t.take (suffix t).length) = suffix t := by
  rcases suffix_cases t with ⟨u, rest, number, rfl, hr, e⟩ | ⟨u, rest, number, rfl, -, hs, e⟩ | e
  · obtain ⟨-, -, htake⟩ := rowText?_eq_some hr
    rw [e, List.take_succ_cons, suffix, htake _ (Nat.le_refl _)]
  · obtain ⟨hu, -, htake⟩ := secondsText?_eq_some hs
    rw [e, List.take_succ_cons, suffix, rowText?_eq_none (by rw [hu]; decide),
      htake _ (Nat.le_refl _)]
  · rw [e, List.take_zero]
    rfl

/-- A suffix is empty, or the text begins with its bracket or at sign. -/
theorem suffix_empty_or_head (t : Text) :
    (suffix t).length = 0 ∨ ∃ u rest n, t = u :: rest ∧ (u = openBracket ∨ u = atSign) ∧
      t.take (suffix t).length = u :: rest.take n := by
  rcases suffix_cases t with ⟨u, rest, number, rfl, hr, e⟩ | ⟨u, rest, number, rfl, -, hs, e⟩ | e
  · exact Or.inr ⟨u, rest, number.length + 1, rfl, Or.inl (rowText?_eq_some hr).1, by rw [e]; rfl⟩
  · exact Or.inr ⟨u, rest, number.length + 1, rfl, Or.inr (secondsText?_eq_some hs).1,
      by rw [e]; rfl⟩
  · exact Or.inl (by rw [e])

/-- A shift by rows stays within 32 bits, and one by seconds is finite. -/
inductive Usable : Shift → Prop
  | none : Usable none
  | rows {offset : RowOffset} (h : offset.inRange = true) : Usable (rows offset)
  | seconds {s : Float} (h : Number.isFinite s = true) : Usable (seconds s)

theorem usable_ofRowText (t : Text) : (ofRowText t).Usable := by
  unfold ofRowText
  split
  · dsimp only
    split
    · rename_i h
      exact .rows (Bool.and_eq_true_iff.1 h).2
    · exact .none
  · exact .none

theorem usable_ofSecondsText (t : Text) : (ofSecondsText t).Usable := by
  unfold ofSecondsText
  split
  · split
    · rename_i h
      exact .seconds h
    · exact .none
  · exact .none

theorem usable_suffix (t : Text) : (suffix t).shift.Usable := by
  rcases suffix_cases t with ⟨-, -, number, -, -, e⟩ | ⟨-, -, number, -, -, -, e⟩ | e
  · rw [e]
    exact usable_ofRowText number
  · rw [e]
    exact usable_ofSecondsText number
  · rw [e]
    exact .none

end Shift

end VirtualChannels
