import VirtualChannels.Proofs.Number.LongestNumeral
import VirtualChannels.Proofs.Reference.Identifiers
import VirtualChannels.Proofs.Reference.WholeShifts

/-
  How a shift is written, and which beginning of a text is one. The suffix that is read is the
  longest beginning of the text that is written like a shift (`Shift.isLongest_suffix`), as the
  numeral that is read is the longest beginning that is a numeral.
-/

namespace VirtualChannels

/-- The first units of the text have a property, unless there are none, and no longer beginning of
the text has it. -/
structure Text.IsLongest (P : Text → Prop) (n : Nat) (t : Text) : Prop where
  le : n ≤ t.length
  holds : n ≠ 0 → P (t.take n)
  longest : ∀ p, P p → p <+: t → p.length ≤ n

open Text (IsLongest IsIdentifier)

theorem Text.IsLongest.unique {P : Text → Prop} {n m : Nat} {t : Text} (h : IsLongest P n t)
    (h' : IsLongest P m t) : n = m := by
  have hle {n m : Nat} (h : IsLongest P n t) (h' : IsLongest P m t) : n ≤ m := by
    by_cases hn : n = 0
    · omega
    · have hlength := h'.longest _ (h.holds hn) (List.take_prefix n t)
      rwa [List.length_take, Nat.min_eq_left h.le] at hlength
  exact Nat.le_antisymm (hle h h') (hle h' h)

theorem Text.IsLongest.holds_left {P : Text → Prop} {s x : Text} (h : IsLongest P s.length (s ++ x))
    (hne : s ≠ []) : P s := by
  have hholds := h.holds fun hz => hne (List.eq_nil_of_length_eq_zero hz)
  rwa [List.take_left] at hholds

theorem Numeral.isLongest_length (t : Text) : IsLongest IsNumeral (length t) t :=
  ⟨length_le t, isNumeral_take_length, fun _ hp h => length_le_of_isNumeral hp h⟩

/-- Of a text that goes on with no part of an identifier, an identifier is the longest beginning. -/
theorem Text.IsIdentifier.isLongest {identifier x : Text} (h : IsIdentifier identifier)
    (hx : ∀ u ∈ x.head?, u.continuesIdentifier = false) :
    IsLongest IsIdentifier identifier.length (identifier ++ x) := by
  refine ⟨?_, fun _ => by rwa [List.take_left], fun p hp hprefix => ?_⟩
  · rw [List.length_append]
    exact Nat.le_add_right _ _
  · -- Where the beginning is longer, the unit behind the identifier is one of its units.
    rcases List.prefix_or_prefix_of_prefix hprefix (List.prefix_append identifier x)
      with hle | ⟨q, rfl⟩
    · exact hle.length_le
    · obtain ⟨rest, hq⟩ := (List.prefix_append_right_inj identifier).1 hprefix
      cases q with
      | nil =>
        rw [List.append_nil]
      | cons u q =>
        have hu := hx u (by rw [← hq]; rfl)
        rw [hp.continues (List.mem_append_right identifier List.mem_cons_self)] at hu
        cases hu

/-- What follows the longest identifier is no part of one. -/
theorem Text.IsLongest.stops {identifier x : Text} (hne : identifier ≠ [])
    (h : IsLongest IsIdentifier identifier.length (identifier ++ x)) :
    IsIdentifier identifier ∧ ∀ u ∈ x.head?, u.continuesIdentifier = false := by
  have hid := h.holds_left hne
  refine ⟨hid, fun u hu => Bool.eq_false_iff.2 fun hcontinues => ?_⟩
  obtain ⟨rest, rfl⟩ := List.head?_eq_some_iff.1 hu
  have hlonger := h.longest (identifier ++ [u])
    (hid.append fun v hv => by rwa [List.mem_singleton.1 hv]) ⟨rest, by simp⟩
  rw [List.length_append, List.length_singleton] at hlonger
  omega

namespace Shift

open Numeral (IsWhole Digits)

/-- What stands between `@` and `s`: a whole number, with or without a point and digits behind
it. -/
inductive IsSeconds : Text → Prop
  | whole {t : Text} {i : Int} (h : IsWhole t i) : IsSeconds t
  | pointed {t ds : Text} {i : Int} (h : IsWhole t i) (hd : Digits ds) :
      IsSeconds (t ++ Decimal.point :: ds)

/-- A shift as it is written: a whole number in brackets, or seconds between `@` and `s`. -/
inductive IsWritten : Text → Prop
  | rows {t : Text} {i : Int} (h : IsWhole t i) : IsWritten (openBracket :: (t ++ [closeBracket]))
  | seconds {t : Text} (h : IsSeconds t) : IsWritten (atSign :: (t ++ [secondsMark]))

theorem IsSeconds.isPart {t : Text} (h : IsSeconds t) {u : CodeUnit} (hu : u ∈ t) :
    Numeral.isPart u = true := by
  cases h with
  | whole h => exact h.isPart hu
  | pointed h hd =>
    rcases List.mem_append.1 hu with hu | hu
    · exact h.isPart hu
    · rcases List.mem_cons.1 hu with rfl | hu
      · decide
      · exact Numeral.isPart_of_isDigit (hd u hu)

/-- The units that a shift is written with. -/
theorem IsWritten.isPart_or_mem {p : Text} (h : IsWritten p) {u : CodeUnit} (hu : u ∈ p) :
    Numeral.isPart u = true ∨ u ∈ [openBracket, closeBracket, atSign, secondsMark] := by
  cases h with
  | rows h =>
    rcases List.mem_cons.1 hu with rfl | hu
    · exact Or.inr (by decide)
    · rcases List.mem_append.1 hu with hu | hu
      · exact Or.inl (h.isPart hu)
      · rw [List.mem_singleton.1 hu]
        exact Or.inr (by decide)
  | seconds h =>
    rcases List.mem_cons.1 hu with rfl | hu
    · exact Or.inr (by decide)
    · rcases List.mem_append.1 hu with hu | hu
      · exact Or.inl (h.isPart hu)
      · rw [List.mem_singleton.1 hu]
        exact Or.inr (by decide)

/-! ## What is written is read -/

theorem IsSeconds.suffix_eq {t : Text} (h : IsSeconds t) (x : Text) :
    suffix (atSign :: (t ++ secondsMark :: x)) = ⟨t.length + 2, ofSecondsText t⟩ := by
  cases h with
  | whole h => exact h.suffix_seconds x
  | @pointed t ds i h hd =>
    have hwhole : signedDigits (t ++ Decimal.point :: (ds ++ secondsMark :: x)) = t.length :=
      h.signedDigits_append fun u hu => by
        cases hu
        exact Numeral.isDigit_point
    have hpoint : pointAndDigits (Decimal.point :: (ds ++ secondsMark :: x)) = 1 + ds.length := by
      have hmark : Numeral.digitRun (secondsMark :: x) = 0 := Numeral.digitRun_eq_zero (by decide) x
      rw [pointAndDigits, beq_self_eq_true, if_pos rfl, Numeral.digitRun_append hd, hmark,
        Nat.add_zero]
    have hlength : t.length + (1 + ds.length) = (t ++ Decimal.point :: ds).length := by
      rw [List.length_append, List.length_cons, Nat.add_comm 1]
    have hseconds : secondsText? (atSign :: ((t ++ Decimal.point :: ds) ++ secondsMark :: x)) =
        some (t ++ Decimal.point :: ds) := by
      unfold secondsText?
      dsimp only
      rw [List.append_assoc, List.cons_append, hwhole, List.drop_left, hpoint, hlength,
        ← List.cons_append, ← List.append_assoc, List.drop_left, List.take_left, if_pos]
      simp [h.length_ne_zero]
    unfold suffix
    rw [rowText?_eq_none (by decide), hseconds]

theorem IsWritten.length_suffix {p : Text} (h : IsWritten p) (x : Text) :
    (suffix (p ++ x)).length = p.length := by
  cases h with
  | rows h =>
    rw [List.cons_append, List.append_assoc, List.singleton_append, h.suffix_rows, List.length_cons,
      List.length_append]
    rfl
  | seconds h =>
    rw [List.cons_append, List.append_assoc, List.singleton_append, h.suffix_eq, List.length_cons,
      List.length_append]
    rfl

/-! ## What is read is written -/

theorem exists_isWhole_take {t : Text} (h : signedDigits t ≠ 0) :
    ∃ i, IsWhole (t.take (signedDigits t)) i := by
  unfold signedDigits at h ⊢
  dsimp only at h ⊢
  by_cases hs : t.head?.any Decimal.isSign = true
  · obtain ⟨sign, rest, rfl⟩ : ∃ sign rest, t = sign :: rest := by
      cases t with
      | nil => cases hs
      | cons sign rest => exact ⟨sign, rest, rfl⟩
    simp only [if_pos hs, List.drop_succ_cons, List.drop_zero] at h ⊢
    split at h
    · exact absurd rfl h
    · rename_i hd
      rw [if_neg hd, Nat.add_comm, List.take_succ_cons]
      exact ⟨_, .signed hs (Numeral.digits_take_digitRun rest) (Numeral.digits_ne_nil hd)⟩
  · simp only [if_neg hs, List.drop_zero] at h ⊢
    split at h
    · exact absurd rfl h
    · rename_i hd
      rw [if_neg hd, Nat.zero_add]
      exact ⟨_, .unsigned (Numeral.digits_take_digitRun t) (Numeral.digits_ne_nil hd)⟩

theorem isSeconds_take {t : Text} (h : signedDigits t ≠ 0) :
    IsSeconds (t.take (signedDigits t + pointAndDigits (t.drop (signedDigits t)))) := by
  obtain ⟨i, hi⟩ := exists_isWhole_take h
  rw [List.take_add]
  cases hrest : t.drop (signedDigits t) with
  | nil =>
    rw [List.take_nil, List.append_nil]
    exact .whole hi
  | cons u rest =>
    rw [pointAndDigits]
    split
    · rename_i hu
      rw [eq_of_beq hu, Nat.add_comm, List.take_succ_cons]
      exact .pointed hi (Numeral.digits_take_digitRun rest)
    · rw [List.take_zero, List.append_nil]
      exact .whole hi

theorem take_of_head?_drop {t : Text} {n : Nat} {u : CodeUnit} (h : (t.drop n).head? = some u) :
    t.take (n + 1) = t.take n ++ [u] := by
  rw [List.head?_drop] at h
  rw [List.take_add_one, h]
  rfl

theorem rowText?_written {u : CodeUnit} {rest number : Text}
    (h : rowText? (u :: rest) = some number) :
    IsWritten ((u :: rest).take (number.length + 2)) := by
  unfold rowText? at h
  dsimp only at h
  split at h
  · rename_i hc
    cases h
    simp only [Bool.and_eq_true, beq_iff_eq, decide_eq_true_eq] at hc
    obtain ⟨⟨rfl, hne⟩, hclose⟩ := hc
    obtain ⟨i, hi⟩ := exists_isWhole_take hne
    rw [List.length_take, Nat.min_eq_left (Nat.le_of_lt (lt_length_of_head?_drop hclose)),
      List.take_succ_cons, take_of_head?_drop hclose]
    exact .rows hi
  · cases h

theorem secondsText?_written {u : CodeUnit} {rest number : Text}
    (h : secondsText? (u :: rest) = some number) :
    IsWritten ((u :: rest).take (number.length + 2)) := by
  unfold secondsText? at h
  dsimp only at h
  split at h
  · rename_i hc
    cases h
    simp only [Bool.and_eq_true, beq_iff_eq, decide_eq_true_eq] at hc
    obtain ⟨⟨rfl, hne⟩, hmark⟩ := hc
    rw [List.length_take, Nat.min_eq_left (Nat.le_of_lt (lt_length_of_head?_drop hmark)),
      List.take_succ_cons, take_of_head?_drop hmark]
    exact .seconds (isSeconds_take hne)
  · cases h

/-- The suffix that is read is the longest that is written. -/
theorem isLongest_suffix (t : Text) : IsLongest IsWritten (suffix t).length t := by
  refine ⟨?_, fun hne => ?_, ?_⟩
  · rcases suffix_cases t with ⟨u, rest, number, rfl, hr, e⟩ | ⟨u, rest, number, rfl, -, hs, e⟩ | e
    · obtain ⟨-, hle, -⟩ := rowText?_eq_some hr
      rw [e, List.length_cons]
      exact Nat.succ_le_succ hle
    · obtain ⟨-, hle, -⟩ := secondsText?_eq_some hs
      rw [e, List.length_cons]
      exact Nat.succ_le_succ hle
    · rw [e]
      exact Nat.zero_le _
  · rcases suffix_cases t with ⟨u, rest, number, rfl, hr, e⟩ | ⟨u, rest, number, rfl, -, hs, e⟩ | e
    · rw [e]
      exact rowText?_written hr
    · rw [e]
      exact secondsText?_written hs
    · rw [e] at hne
      exact absurd rfl hne
  · rintro p hp ⟨x, rfl⟩
    exact Nat.le_of_eq (hp.length_suffix x).symm

end Shift

end VirtualChannels
