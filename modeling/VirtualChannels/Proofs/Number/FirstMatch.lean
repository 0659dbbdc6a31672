import VirtualChannels.Proofs.Reference.WrittenSuffixes
import VirtualChannels.Proofs.Text.Matching

/-
  Numerals as a pattern. The pattern describes exactly the numerals
  (`matches_numeralPattern_iff`), and the match that is found first, with all its alternatives,
  optional parts and ways back, is as long as the numeral that is read
  (`first?_numeralPattern`), which is the longest at the start of the text.
-/

namespace VirtualChannels.Numeral

open Text (IsLongest)

open Pattern (unit sequence choice optional many oneOrMore Matches)

/-- The unit alone. -/
def only (u : CodeUnit) : Pattern := unit (· == u)

/-- Digits with an optional point and optional further digits, or a point and digits. -/
def mantissaPattern : Pattern :=
  choice
    (sequence (oneOrMore CodeUnit.isDigit)
      (sequence (optional (only Decimal.point)) (many CodeUnit.isDigit)))
    (sequence (only Decimal.point) (oneOrMore CodeUnit.isDigit))

/-- A mark, an optional sign and digits. -/
def exponentPattern : Pattern :=
  sequence (unit Decimal.isExponentMark)
    (sequence (optional (unit Decimal.isSign)) (oneOrMore CodeUnit.isDigit))

def numeralPattern : Pattern := sequence mantissaPattern (optional exponentPattern)

/-! ## The first match -/

/-- A length, unless it is zero. -/
def found? (n : Nat) : Option Nat := if n = 0 then none else some n

theorem found?_getD (n : Nat) : (found? n).getD 0 = n := by
  unfold found?
  split <;> simp_all

theorem found?_of_ne {n : Nat} (h : n ≠ 0) : found? n = some n := if_neg h

theorem first?_digits (t : Text) :
    (oneOrMore CodeUnit.isDigit).first? t = found? (digitRun t) :=
  Pattern.first?_oneOrMore CodeUnit.isDigit t

theorem first?_pointed (u : CodeUnit) (rest : Text) :
    (sequence (only Decimal.point) (oneOrMore CodeUnit.isDigit)).first? (u :: rest) =
      if (u == Decimal.point) = true then (found? (digitRun rest)).map (1 + ·) else none := by
  rw [only, Pattern.first?_unit_sequence, first?_digits]

/-- What follows the digits before the point: the point and the digits behind it, or nothing. -/
theorem first?_fraction (t : Text) :
    (sequence (optional (only Decimal.point)) (many CodeUnit.isDigit)).first? t =
      some (match t with
        | [] => 0
        | u :: rest => if (u == Decimal.point) = true then 1 + digitRun rest else digitRun t) := by
  rw [Pattern.first?_sequence (Pattern.always_many _), Pattern.first?_optional]
  cases t with
  | nil => rfl
  | cons u rest =>
    rw [only, Pattern.first?_unit_cons]
    by_cases hu : (u == Decimal.point) = true
    · simp [hu, Pattern.first?_many, digitRun]
    · simp [hu, Pattern.first?_many, digitRun]

theorem first?_mantissaPattern (t : Text) :
    mantissaPattern.first? t = found? (mantissaLength t) := by
  unfold mantissaPattern mantissaLength
  have halways : Pattern.Always
      (sequence (optional (only Decimal.point)) (many CodeUnit.isDigit)) :=
    (Pattern.always_optional _).sequence (Pattern.always_many _)
  rw [Pattern.first?_choice, Pattern.first?_sequence halways, first?_digits, found?]
  by_cases hwhole : digitRun t = 0
  · -- Without a digit in front there has to be one behind the point.
    simp only [hwhole, if_true, Option.map_none, Option.none_or, List.drop_zero]
    cases t with
    | nil => rfl
    | cons u rest =>
      rw [first?_pointed]
      by_cases hu : (u == Decimal.point) = true
      · by_cases hfraction : digitRun rest = 0 <;> simp [hu, hfraction, found?, Nat.add_comm]
      · simp [hu, found?]
  · simp only [hwhole, if_false, Option.map_some, Option.some_or, first?_fraction, Option.getD_some]
    have hnext : ∀ u ∈ (t.drop (digitRun t)).head?, u.isDigit = false := fun u hu => by
      rw [digitRun, Text.drop_length_takeWhile] at hu
      exact Text.head_dropWhile hu
    cases hrest : t.drop (digitRun t) with
    | nil => simp [found?, hwhole]
    | cons u rest =>
      rw [hrest] at hnext
      by_cases hu : (u == Decimal.point) = true
      · simp [hu, found?, Nat.add_assoc]
      · simp [hu, found?, hwhole, digitRun_eq_zero (hnext u rfl)]

theorem first?_exponentPattern (t : Text) :
    exponentPattern.first? t = found? (exponentLength t) := by
  cases t with
  | nil => rfl
  | cons u rest =>
    unfold exponentPattern
    rw [Pattern.first?_unit_sequence, exponentLength]
    by_cases hu : Decimal.isExponentMark u = true
    · rw [if_pos hu, if_pos hu]
      cases rest with
      | nil => rfl
      | cons v rest =>
        rw [Pattern.first?_optional_unit_sequence, first?_digits, first?_digits]
        by_cases hv : Decimal.isSign v = true
        · -- Behind a sign the digits have to follow: the sign itself is none.
          have hdigit : v.isDigit = false := by
            by_contra hdigit
            rw [isSign_of_isDigit (by simpa using hdigit)] at hv
            cases hv
          by_cases hdigits : digitRun rest = 0
          · simp [hv, hdigits, found?, digitRun_eq_zero hdigit]
          · simp [hv, hdigits, found?]
            omega
        · by_cases hdigits : digitRun (v :: rest) = 0 <;> simp [hv, hdigits, found?]
    · rw [if_neg hu, if_neg hu]
      rfl

/-- The match that is found first is the numeral that is read. -/
theorem first?_numeralPattern (t : Text) : numeralPattern.first? t = found? (length t) := by
  unfold numeralPattern length
  rw [Pattern.first?_sequence (Pattern.always_optional _), first?_mantissaPattern]
  by_cases h : mantissaLength t = 0
  · simp [h, found?]
  · simp [h, found?_of_ne, Pattern.first?_optional, first?_exponentPattern, found?_getD]

/-! ## What is described -/

theorem matches_digits_iff {t : Text} :
    Matches (oneOrMore CodeUnit.isDigit) t ↔ Digits t ∧ t ≠ [] :=
  Pattern.matches_oneOrMore_iff

theorem matches_only_iff {u : CodeUnit} {t : Text} : Matches (only u) t ↔ t = [u] := by
  unfold only
  simp [Pattern.matches_unit_iff]

theorem matches_mantissaPattern_iff {t : Text} : Matches mantissaPattern t ↔ IsMantissa t := by
  unfold mantissaPattern
  simp only [Pattern.matches_choice_iff, Pattern.matches_sequence_iff, Pattern.matches_optional_iff,
    Pattern.matches_many_iff, matches_digits_iff, matches_only_iff]
  constructor
  · rintro (⟨ds, s, rfl, ⟨hd, hne⟩, point, fs, rfl, rfl | rfl, hf⟩ | ⟨point, fs, rfl, rfl, hf, hne⟩)
    · exact .whole (List.forall_mem_append.2 ⟨hd, hf⟩) (List.append_ne_nil_of_left_ne_nil hne _)
    · exact .pointed hd hf (Or.inl hne)
    · have hnone : Digits [] := List.forall_mem_nil _
      exact .pointed hnone hf (Or.inr hne)
  · intro h
    cases h with
    | whole hd hne => exact Or.inl ⟨t, [], by simp, ⟨hd, hne⟩, [], [], rfl, Or.inl rfl, by simp⟩
    | @pointed ds fs hd hf hne =>
      by_cases hds : ds = []
      · subst hds
        exact Or.inr ⟨[Decimal.point], fs, rfl, rfl, hf, hne.resolve_left fun h => h rfl⟩
      · exact Or.inl ⟨ds, Decimal.point :: fs, rfl, ⟨hd, hds⟩, [Decimal.point], fs, rfl, Or.inr rfl, hf⟩

theorem matches_exponentPattern_iff {t : Text} : Matches exponentPattern t ↔ IsExponent t := by
  unfold exponentPattern
  simp only [Pattern.matches_sequence_iff, Pattern.matches_optional_iff, Pattern.matches_unit_iff,
    matches_digits_iff]
  constructor
  · rintro ⟨m, s, rfl, ⟨mark, rfl, hm⟩, sign, ds, rfl, rfl | ⟨v, rfl, hv⟩, hd, hne⟩
    · exact .unsigned hm hd hne
    · exact .signed hm hv hd hne
  · intro h
    cases h with
    | @unsigned mark ds hm hd hne =>
      exact ⟨[mark], ds, rfl, ⟨mark, rfl, hm⟩, [], ds, rfl, Or.inl rfl, hd, hne⟩
    | @signed mark sign ds hm hs hd hne =>
      exact ⟨[mark], sign :: ds, rfl, ⟨mark, rfl, hm⟩, [sign], ds, rfl, Or.inr ⟨sign, rfl, hs⟩, hd, hne⟩

/-- The pattern describes the numerals. -/
theorem matches_numeralPattern_iff {t : Text} : Matches numeralPattern t ↔ IsNumeral t := by
  unfold numeralPattern
  simp only [Pattern.matches_sequence_iff, Pattern.matches_optional_iff, matches_mantissaPattern_iff,
    matches_exponentPattern_iff]
  constructor
  · rintro ⟨m, e, rfl, hm, rfl | he⟩
    · rw [List.append_nil]
      exact .plain hm
    · exact .scaled hm he
  · intro h
    cases h with
    | plain hm => exact ⟨t, [], by simp, hm, Or.inl rfl⟩
    | scaled hm he => exact ⟨_, _, rfl, hm, Or.inr he⟩

/-! ## The longest numeral -/

theorem isLongest_exponentLength (t : Text) : IsLongest IsExponent (exponentLength t) t := by
  refine ⟨exponentLength_le t, isExponent_take, ?_⟩
  rintro p hp ⟨rest, rfl⟩
  exact exponentLength_append hp rest

/-- The exponent behind a mantissa is part of the numeral as far as it is complete. -/
theorem length_append_mark {m : Text} (hm : IsMantissa m) {mark : CodeUnit}
    (hmark : Decimal.isExponentMark mark = true) (t : Text) :
    length (m ++ mark :: t) = m.length + exponentLength (mark :: t) := by
  have hne : m.length ≠ 0 := fun h => hm.ne_nil (List.eq_nil_of_length_eq_zero h)
  unfold length
  rw [mantissaLength_append_mark hm hmark, if_neg hne, List.drop_left]

theorem length_eq_zero_iff {t : Text} : length t = 0 ↔ ∀ p, p <+: t → ¬ IsNumeral p := by
  have hnone : numeralPattern.first? t = none ↔ length t = 0 := by
    rw [first?_numeralPattern, found?]
    split <;> simp_all
  rw [← hnone, Pattern.first?_eq_none_iff]
  simp only [matches_numeralPattern_iff]

/-- The length of the numeral at an offset of a text is that of the first match of its pattern,
and of the longest numeral there; it is zero exactly where none begins. Behind a mantissa and an
exponent mark it takes in the longest exponent, and nothing if there is no complete one. -/
theorem lengthAt_isLongest (t : Text) (start : Int) :
    (numeralPattern.first? (textFrom t start)).getD 0 = lengthAt t start ∧
    IsLongest IsNumeral (lengthAt t start) (textFrom t start) ∧
    (lengthAt t start = 0 ↔ ∀ p, p <+: textFrom t start → ¬ IsNumeral p) ∧
    ∀ m mark after, textFrom t start = m ++ mark :: after → IsMantissa m →
      Decimal.isExponentMark mark = true →
      ∃ n, lengthAt t start = m.length + n ∧ IsLongest IsExponent n (mark :: after) := by
  unfold lengthAt
  refine ⟨?_, isLongest_length _, length_eq_zero_iff, fun m mark after h hm hmark => ?_⟩
  · rw [first?_numeralPattern, found?_getD]
  · rw [h]
    exact ⟨_, length_append_mark hm hmark after, isLongest_exponentLength _⟩

/-- An exponent without digits does not count, and one with a sign and zeros does. -/
theorem lengthAt_isLongest_exponents :
    IsMantissa (Text.ofString "1.5") ∧ Decimal.isExponentMark 0x65 = true ∧
      (textFrom "2*1.5e+x" 2 = Text.ofString "1.5" ++ 0x65 :: Text.ofString "+x" ∧
        ∃ n, lengthAt "2*1.5e+x" 2 = 3 + n ∧ IsLongest IsExponent n "e+x" ∧ n = 0) ∧
      textFrom "2*1.5e+07x" (-8) = Text.ofString "1.5" ++ 0x65 :: Text.ofString "+07x" ∧
        ∃ n, lengthAt "2*1.5e+07x" (-8) = 3 + n ∧ IsLongest IsExponent n "e+07x" ∧ n = 4 := by
  have hone : (Text.ofString "1").all CodeUnit.isDigit = true := by decide +kernel
  have hfive : (Text.ofString "5").all CodeUnit.isDigit = true := by decide +kernel
  have hm : IsMantissa (Text.ofString "1.5") :=
    .pointed (List.all_eq_true.1 hone) (List.all_eq_true.1 hfive) (Or.inl (by decide +kernel))
  have hmark : Decimal.isExponentMark 0x65 = true := by decide
  have hincomplete : textFrom "2*1.5e+x" 2 = Text.ofString "1.5" ++ 0x65 :: Text.ofString "+x" := by
    decide +kernel
  have hcomplete : textFrom "2*1.5e+07x" (-8) =
      Text.ofString "1.5" ++ 0x65 :: Text.ofString "+07x" := by decide +kernel
  obtain ⟨n, hn, hlongest⟩ := (lengthAt_isLongest "2*1.5e+x" 2).2.2.2 _ _ _ hincomplete hm hmark
  obtain ⟨k, hk, hlongest'⟩ :=
    (lengthAt_isLongest "2*1.5e+07x" (-8)).2.2.2 _ _ _ hcomplete hm hmark
  have hzero : exponentLength (Text.ofString "e+x") = 0 := by decide +kernel
  have hfour : exponentLength (Text.ofString "e+07x") = 4 := by decide +kernel
  exact ⟨hm, hmark, ⟨hincomplete, n, hn, hlongest,
    (hlongest.unique (isLongest_exponentLength _)).trans hzero⟩, hcomplete, k, hk, hlongest',
    (hlongest'.unique (isLongest_exponentLength _)).trans hfour⟩

end VirtualChannels.Numeral
