import VirtualChannels.Json.Reader
import VirtualChannels.Proofs.Number.Parts

/-
  The readers of JSON on texts whose beginning is known: a unit or a word after blanks, the text
  of a number (`readNumber_denotes`) and units within quotation marks (`readText_writeUnits`).
  Each leaves what follows as it is.
-/

namespace VirtualChannels.Json

/-- A reading gives a result and leaves the rest. -/
def Gives {t : Text} {α : Type} (reading : Reading t α) (x : α) (rest : Text) : Prop :=
  ∃ h, reading = .ok (x, ⟨rest, h⟩)

def Blanks (b : Text) : Prop := ∀ u ∈ b, isBlank u = true

/-- Nothing that a number could go on with comes first. -/
def Ends (rest : Text) : Prop := ∀ u ∈ rest.head?, Numeral.isPart u = false

/-! ## Units and words -/

section
variable {t rest : Text} {u v : CodeUnit}

theorem skipBlanks_append {b : Text} (hb : Blanks b) (hu : isBlank u = false) (rest : Text) :
    skipBlanks (b ++ u :: rest) = u :: rest := by
  refine Text.dropWhile_append_stop hb fun v hv => ?_
  cases hv
  exact hu

theorem skipBlanks_cons (hu : isBlank u = false) (rest : Text) :
    skipBlanks (u :: rest) = u :: rest :=
  List.dropWhile_cons_of_neg (Bool.eq_false_iff.1 hu)

theorem expect_same (h : skipBlanks t = u :: rest) : ∃ hl, expect u t = some ⟨rest, hl⟩ := by
  unfold expect
  split
  · rename_i v rest' h'
    have hl := length_skipBlanks_le t
    rw [h] at h' hl
    cases h'
    exact ⟨hl, if_pos rfl⟩
  · rename_i h'
    rw [h] at h'
    cases h'

theorem expect_other (h : skipBlanks t = v :: rest) (hne : v ≠ u) : expect u t = none := by
  unfold expect
  split
  · rename_i v' rest' h'
    rw [h] at h'
    cases h'
    exact if_neg hne
  · rfl

theorem expectWord_same {word : Text} (hne : word ≠ []) (h : skipBlanks t = word ++ rest) :
    ∃ hl, expectWord word t = some ⟨rest, hl⟩ := by
  obtain ⟨w, more, rfl⟩ := List.exists_cons_of_ne_nil hne
  unfold expectWord
  split
  · rename_i v rest' h'
    have hprefix : (w :: more).isPrefixOf (v :: rest') = true := by
      rw [← h', h, List.isPrefixOf_iff_prefix]
      exact List.prefix_append _ _
    have hrest : rest'.drop ((w :: more).length - 1) = rest := by
      rw [h, List.cons_append] at h'
      cases h'
      exact List.drop_left
    have hl := length_skipBlanks_le t
    rw [h, List.length_append, List.length_cons] at hl
    rw [if_pos hprefix]
    unfold behind
    exact ⟨by omega, by simp only [hrest]⟩
  · rename_i h'
    rw [h] at h'
    cases h'

theorem expectWord_other {word : Text} (hne : word ≠ []) (h : skipBlanks t = v :: rest)
    (hv : word.head? ≠ some v) : expectWord word t = none := by
  obtain ⟨w, more, rfl⟩ := List.exists_cons_of_ne_nil hne
  have hw : w ≠ v := fun e => hv (congrArg some e)
  unfold expectWord
  split
  · rename_i v' rest' h'
    rw [h] at h'
    cases h'
    exact if_neg (by simp [hw])
  · rfl

end

/-! ## Numbers -/

theorem someDigits_append {ds : Text} (hd : Numeral.Digits ds) (hne : ds ≠ []) {rest : Text}
    (hrest : ∀ u ∈ rest.head?, u.isDigit = false) (cause : Cause) :
    someDigits cause (ds ++ rest) = .ok ds.length := by
  have hrun : Numeral.digitRun (ds ++ rest) = ds.length :=
    congrArg List.length (Text.takeWhile_append_stop hd hrest)
  unfold someDigits
  dsimp only
  rw [hrun, if_neg (Nat.ne_of_gt (List.length_pos_iff.2 hne))]

section
variable (p : Numeral.Parts) {rest : Text} (hrest : Ends rest)

include hrest

theorem exponentLength_parts :
    exponentLength (p.exponentText ++ rest) = .ok p.exponentText.length := by
  unfold Numeral.Parts.exponentText
  split
  · rename_i e _
    obtain ⟨sign, he, hsign⟩ := Numeral.Parts.exists_exponentText_cons e
    have hstop : ∀ u ∈ rest.head?, u.isDigit = false := fun u hu => by
      have := hrest u hu
      simp only [Numeral.isPart, Bool.or_eq_false_iff] at this
      exact this.1.1.1
    have hdigits := someDigits_append (Numeral.digits_digitText e.natAbs)
      (Decimal.digitText_ne_nil _) hstop .noDigitInExponent
    have hmark : Decimal.isExponentMark 0x65 = true := by decide
    have hsign' : Decimal.isSign sign = true := by
      rw [hsign]
      split <;> decide
    rw [he, List.cons_append, List.cons_append]
    simp only [exponentLength, hmark, if_true, List.head?_cons, Option.any_some, hsign',
      List.drop_succ_cons, List.drop_zero, hdigits, Except.map, List.length_cons]
    congr 1
    omega
  · cases rest with
    | nil => rfl
    | cons u rest =>
      have := hrest u rfl
      simp only [Numeral.isPart, Bool.or_eq_false_iff] at this
      exact if_neg (by rw [this.1.2]; exact Bool.false_ne_true)

theorem fractionLength_parts : fractionLength (p.fractionText ++ (p.exponentText ++ rest)) =
    .ok p.fractionText.length := by
  have hstop := p.head_exponentText hrest
  unfold Numeral.Parts.fractionText
  split
  · rw [List.nil_append]
    cases ht : p.exponentText ++ rest with
    | nil => rfl
    | cons u more =>
      exact if_neg (by simpa using (hstop u (by rw [ht]; rfl)).2)
  · rename_i hne
    have hdigits := someDigits_append p.digits_fraction hne (fun u hu => (hstop u hu).1)
      .noDigitAfterPoint
    rw [List.cons_append]
    simp only [fractionLength, beq_self_eq_true, if_true, hdigits, Except.map, List.length_cons]
    rw [Nat.add_comm]

theorem wholeLength_parts :
    wholeLength (p.whole ++ (p.fractionText ++ (p.exponentText ++ rest))) = .ok p.whole.length := by
  have hdigits := someDigits_append p.digits_whole p.whole_ne_nil (p.head_fractionText hrest)
    .noDigitAfterMinus
  have hzero : ((p.whole ++ (p.fractionText ++ (p.exponentText ++ rest))).head? == some 0x30
      && decide (p.whole.length ≠ 1)) = false := by
    obtain ⟨u, more, hwhole, -⟩ := p.exists_whole_cons
    by_cases hu : u = 0x30
    · have := p.zero_alone (by rw [hwhole, hu]; rfl)
      rw [decide_eq_false (not_not_intro this), Bool.and_false]
    · rw [hwhole, List.cons_append, List.head?_cons]
      simp [hu]
  unfold wholeLength
  rw [hdigits]
  dsimp only
  rw [hzero]
  rfl

/-- The number that a text starts with is the numeral in parts. -/
theorem numberLength_parts : numberLength (p.text ++ rest) = .ok p.text.length := by
  have hsign : (if (p.text ++ rest).head? == some Decimal.minus then 1 else 0)
      = (Numeral.Parts.signText p.negative).length := by
    unfold Numeral.Parts.text Numeral.Parts.signText
    cases p.negative with
    | true => rfl
    | false =>
      obtain ⟨u, more, hwhole, hdigit⟩ := p.exists_whole_cons
      have hu := Numeral.isSign_of_isDigit hdigit
      simp only [Decimal.isSign, Bool.or_eq_false_iff, beq_eq_false_iff_ne] at hu
      rw [hwhole]
      exact if_neg (by simpa using hu.2)
  have htext : p.text ++ rest = Numeral.Parts.signText p.negative ++
      (p.whole ++ (p.fractionText ++ (p.exponentText ++ rest))) := by
    unfold Numeral.Parts.text
    simp only [List.append_assoc]
  have hlength : p.text.length = (Numeral.Parts.signText p.negative).length + p.whole.length
      + p.fractionText.length + p.exponentText.length := by
    unfold Numeral.Parts.text
    simp only [List.length_append]
    omega
  unfold numberLength
  dsimp only
  rw [hsign, hlength, htext, List.drop_left, wholeLength_parts p hrest]
  simp only [bind, Except.bind, pure, Except.pure]
  rw [← List.drop_drop, List.drop_left, List.drop_left, fractionLength_parts p hrest]
  dsimp only
  rw [← List.drop_drop, ← List.drop_drop, List.drop_left, List.drop_left, List.drop_left,
    exponentLength_parts p hrest]

end

theorem isBlank_of_startsNumber {u : CodeUnit} (h : startsNumber u = true) :
    isBlank u = false := by
  refine Bool.eq_false_iff.2 fun hb => ?_
  simp only [isBlank, Bool.or_eq_true, beq_iff_eq] at hb
  rcases hb with ((rfl | rfl) | rfl) | rfl <;> exact absurd h (by decide)

theorem exists_text_cons (p : Numeral.Parts) :
    ∃ u more, p.text = u :: more ∧ startsNumber u = true := by
  unfold Numeral.Parts.text Numeral.Parts.signText
  cases p.negative with
  | true => exact ⟨_, _, rfl, by decide⟩
  | false =>
    obtain ⟨u, more, hwhole, hu⟩ := p.exists_whole_cons
    rw [hwhole]
    exact ⟨u, _, rfl, by rw [startsNumber, hu, Bool.true_or]⟩

/-- The text of a number is read as the nearest double. -/
theorem readNumber_denotes {b s rest : Text} {d : Decimal} (hb : Blanks b)
    (hs : Numeral.Denotes s d) (hrest : Ends rest) :
    Gives (readNumber (b ++ (s ++ rest))) d.toFloat rest := by
  obtain ⟨p, rfl, rfl⟩ := hs
  obtain ⟨u, more, htext, hu⟩ := exists_text_cons p
  have hskip : skipBlanks (b ++ (p.text ++ rest)) = u :: (more ++ rest) := by
    rw [htext]
    exact skipBlanks_append hb (isBlank_of_startsNumber hu) _
  have hnumber : u :: (more ++ rest) = p.text ++ rest := by
    rw [htext]
    rfl
  unfold readNumber
  split
  · rename_i v rest' h'
    have hl := length_skipBlanks_le (b ++ (p.text ++ rest))
    rw [hskip] at hl
    rw [hskip] at h'
    cases h'
    split
    · rename_i length hlength
      rw [hnumber, numberLength_parts p hrest] at hlength
      cases hlength
      have hdrop : (more ++ rest).drop (p.text.length - 1) = rest := by
        rw [htext]
        exact List.drop_left
      have htake : (u :: (more ++ rest)).take p.text.length = p.text := by
        rw [hnumber, List.take_left]
      unfold behind
      refine ⟨?_, ?_⟩
      · simp only [List.length_cons, List.length_append] at hl
        rw [List.length_append, List.length_append]
        omega
      · simp only [hdrop, htake, p.read_text]
    · rename_i hfault
      rw [hnumber, numberLength_parts p hrest] at hfault
      cases hfault
  · rename_i h'
    rw [hskip] at h'
    cases h'

/-! ## Texts -/

section
variable {s t rest : Text} {u v : CodeUnit}

theorem readText_end (rest : Text) : Gives (readText (quotationMark :: rest)) [] rest := by
  rw [readText.eq_def]
  exact ⟨_, if_pos rfl⟩

theorem readText_plain (hq : u ≠ quotationMark) (hc : ¬ u < 0x20) (hb : u ≠ backslash)
    (h : Gives (readText t) s rest) : Gives (readText (u :: t)) (u :: s) rest := by
  obtain ⟨hl, hread⟩ := h
  rw [readText.eq_def]
  dsimp only
  rw [if_neg (by simpa using hq), if_neg hc, if_neg (by simpa using hb), hread]
  exact ⟨_, rfl⟩

theorem readText_escape {after : Text} (he : Gives (readEscape t) v after)
    (h : Gives (readText after) s rest) : Gives (readText (backslash :: t)) (v :: s) rest := by
  obtain ⟨hl, hread⟩ := h
  obtain ⟨hl', hescape⟩ := he
  rw [readText.eq_def]
  dsimp only
  rw [if_neg (by decide), if_neg (by decide), if_pos (beq_self_eq_true _), hescape]
  dsimp only
  rw [hread]
  exact ⟨_, rfl⟩

theorem readEscape_unit (hu : u ≠ 0x75) (h : escapedUnit? u = some v) (t : Text) :
    Gives (readEscape (u :: t)) v t := by
  unfold readEscape
  dsimp only
  rw [if_neg (by simpa using hu), h]
  exact ⟨_, rfl⟩

theorem fourDigits?_hexDigits {a b c d : Nat} (ha : a < 16) (hb : b < 16) (hc : c < 16)
    (hd : d < 16) : fourDigits? [hexDigit a, hexDigit b, hexDigit c, hexDigit d] =
      some (16 * (16 * (16 * a + b) + c) + d).toUInt16 := by
  have hdigit : ∀ n < 16, Number.baseDigit? (hexDigit n) = some n := by decide
  unfold fourDigits? Number.inBase?
  rw [if_pos (by rfl), if_neg (List.cons_ne_nil _ _)]
  simp only [List.foldlM_cons, List.foldlM_nil, hdigit _ ha, hdigit _ hb, hdigit _ hc, hdigit _ hd,
    Option.bind_some, ha, hb, hc, hd, if_true, bind, pure, Option.map_some, Nat.mul_zero,
    Nat.zero_add]

theorem readText_numberEscape (h : Gives (readText t) s rest) :
    Gives (readText (numberEscape u ++ t)) (u :: s) rest := by
  have hlt : u.toNat < 0x10000 := u.toNat_lt
  have hvalue : (16 * (16 * (16 * (u.toNat / 0x1000) + u.toNat / 0x100 % 0x10)
      + u.toNat / 0x10 % 0x10) + u.toNat % 0x10).toUInt16 = u := by
    rw [show 16 * (16 * (16 * (u.toNat / 0x1000) + u.toNat / 0x100 % 0x10)
      + u.toNat / 0x10 % 0x10) + u.toNat % 0x10 = u.toNat by omega]
    exact UInt16.ofNat_toNat
  have hdigits := fourDigits?_hexDigits (a := u.toNat / 0x1000) (b := u.toNat / 0x100 % 0x10)
    (c := u.toNat / 0x10 % 0x10) (d := u.toNat % 0x10) (by omega) (by omega) (by omega) (by omega)
  rw [hvalue] at hdigits
  have hescape : Gives (readEscape (0x75 :: hexDigit (u.toNat / 0x1000) ::
      hexDigit (u.toNat / 0x100 % 0x10) :: hexDigit (u.toNat / 0x10 % 0x10) ::
      hexDigit (u.toNat % 0x10) :: t)) u t := by
    unfold readEscape
    dsimp only
    rw [if_pos (beq_self_eq_true _)]
    simp only [List.take_succ_cons, List.take_zero, hdigits, List.drop_succ_cons, List.drop_zero]
    exact ⟨_, rfl⟩
  exact readText_escape hescape h

/-- A unit is written with a short escape, by its number or as it is. -/
theorem writeUnit_cases (u : CodeUnit) :
    (∃ v, v ≠ 0x75 ∧ v.toNat < 0x80 ∧ escapedUnit? v = some u ∧ writeUnit u = [backslash, v]) ∨
    writeUnit u = numberEscape u ∨
    (u ≠ quotationMark ∧ u ≠ backslash ∧ ¬ u < 0x20 ∧ u.isHighSurrogate = false ∧
      u.isLowSurrogate = false ∧ writeUnit u = [u]) := by
  by_cases hshort : u = quotationMark ∨ u = backslash ∨ u = 0x08 ∨ u = 0x09 ∨ u = 0x0A ∨
      u = 0x0C ∨ u = 0x0D
  · rcases hshort with rfl | rfl | rfl | rfl | rfl | rfl | rfl
    · exact Or.inl ⟨quotationMark, by decide⟩
    · exact Or.inl ⟨backslash, by decide⟩
    · exact Or.inl ⟨0x62, by decide⟩
    · exact Or.inl ⟨0x74, by decide⟩
    · exact Or.inl ⟨0x6E, by decide⟩
    · exact Or.inl ⟨0x66, by decide⟩
    · exact Or.inl ⟨0x72, by decide⟩
  · simp only [not_or] at hshort
    obtain ⟨hquote, hback, h8, h9, hA, hC, hD⟩ := hshort
    have hwrite : writeUnit u = if u < 0x20 || u.isHighSurrogate || u.isLowSurrogate then
        numberEscape u else [u] := by
      unfold writeUnit
      simp only [beq_eq_false_iff_ne.2 hquote, beq_eq_false_iff_ne.2 hback,
        beq_eq_false_iff_ne.2 h8, beq_eq_false_iff_ne.2 h9, beq_eq_false_iff_ne.2 hA,
        beq_eq_false_iff_ne.2 hC, beq_eq_false_iff_ne.2 hD, Bool.or_self, Bool.false_eq_true,
        if_false]
    rw [hwrite]
    split
    · exact Or.inr (Or.inl rfl)
    · rename_i hplain
      simp only [Bool.or_eq_true, decide_eq_true_eq, not_or, Bool.not_eq_true] at hplain
      exact Or.inr (Or.inr ⟨hquote, hback, hplain.1.1, hplain.1.2, hplain.2, rfl⟩)

/-- A unit is read as it was written, whether it was escaped or not. -/
theorem readText_writeUnit (h : Gives (readText t) s rest) :
    Gives (readText (writeUnit u ++ t)) (u :: s) rest := by
  rcases writeUnit_cases u with ⟨v, hv, -, hescape, hw⟩ | hw | ⟨hq, hb, hc, -, -, hw⟩
  · rw [hw]
    exact readText_escape (readEscape_unit hv hescape t) h
  · rw [hw]
    exact readText_numberEscape h
  · rw [hw]
    exact readText_plain hq hc hb h

/-- Units of a surrogate are no marks and no control characters. -/
theorem readText_surrogate (hu : u.isHighSurrogate = true ∨ u.isLowSurrogate = true)
    (h : Gives (readText t) s rest) : Gives (readText (u :: t)) (u :: s) rest := by
  have hle : 0xD800 ≤ u.toNat := by
    simp only [CodeUnit.isHighSurrogate, CodeUnit.isLowSurrogate, Bool.and_eq_true,
      decide_eq_true_eq, UInt16.le_iff_toNat_le] at hu
    simp only [UInt16.reduceToNat] at hu
    omega
  refine readText_plain (fun e => ?_) (fun hlt => ?_) (fun e => ?_) h
  · rw [e] at hle
    exact absurd hle (by decide)
  · rw [UInt16.lt_iff_toNat_lt] at hlt
    simp only [UInt16.reduceToNat] at hlt
    omega
  · rw [e] at hle
    exact absurd hle (by decide)

/-- What is within quotation marks is read as it was written. -/
theorem readText_writeUnits (s rest : Text) :
    Gives (readText (writeUnits s ++ quotationMark :: rest)) s rest := by
  fun_induction writeUnits s with
  | case1 => exact readText_end rest
  | case2 u => exact readText_writeUnit (readText_end rest)
  | case3 u v s hpair ih =>
    obtain ⟨hu, hv⟩ := Bool.and_eq_true_iff.1 hpair
    exact readText_surrogate (Or.inl hu) (readText_surrogate (Or.inr hv) ih)
  | case4 u v s hpair ih =>
    rw [List.append_assoc]
    exact readText_writeUnit ih

end

end VirtualChannels.Json
