import VirtualChannels.Proofs.Number.Digits
import VirtualChannels.Proofs.Number.LongestNumeral
import VirtualChannels.Proofs.Number.ReadingBack

/-
  The text of a number in its parts. Such a text is read part by part (`Parts.read_text`), every
  layout of a decimal is one (`exists_denotes_write`), and so the text of a finite double denotes
  the double, a zero without its sign (`Number.exists_denotes_text`).
-/

namespace VirtualChannels

/-! ## Numerals in parts -/

namespace Numeral

theorem digits_digitText (n : Nat) : Digits (Decimal.digitText n) :=
  fun _ hu => Decimal.isDigit_of_mem_digitText hu

theorem digits_zeros (n : Nat) : Digits (Layout.zeros n) := by
  intro u hu
  rw [List.eq_of_mem_replicate hu]
  decide

theorem Digits.append {s t : Text} (hs : Digits s) (ht : Digits t) : Digits (s ++ t) := by
  intro u hu
  rcases List.mem_append.1 hu with hu | hu
  · exact hs u hu
  · exact ht u hu

/-- A numeral in its parts. A zero that comes first is the only whole digit. -/
structure Parts where
  negative : Bool := false
  whole : Text
  fraction : Text := []
  exponent : Option Int := none
  digits_whole : Digits whole
  whole_ne_nil : whole ≠ []
  zero_alone : whole.head? = some 0x30 → whole.length = 1
  digits_fraction : Digits fraction := by exact fun _ h => nomatch h

namespace Parts

def signText (negative : Bool) : Text := if negative then [Decimal.minus] else []

/-- A point stands only before digits. -/
def fractionText (p : Parts) : Text := if p.fraction = [] then [] else Decimal.point :: p.fraction

def exponentText (p : Parts) : Text :=
  match p.exponent with
  | some e => Layout.exponentText e
  | none => []

def text (p : Parts) : Text :=
  signText p.negative ++ (p.whole ++ (p.fractionText ++ p.exponentText))

def decimal (p : Parts) : Decimal :=
  ⟨p.negative, Decimal.digitsValue (p.whole ++ p.fraction),
    p.exponent.getD 0 - p.fraction.length⟩

variable (p : Parts) {rest : Text}

theorem exists_whole_cons : ∃ u more, p.whole = u :: more ∧ u.isDigit = true := by
  obtain ⟨u, more, hwhole⟩ := List.exists_cons_of_ne_nil p.whole_ne_nil
  refine ⟨u, more, hwhole, p.digits_whole u ?_⟩
  rw [hwhole]
  exact List.mem_cons_self

theorem exists_exponentText_cons (e : Int) : ∃ sign, Layout.exponentText e =
    0x65 :: sign :: Decimal.digitText e.natAbs ∧
      sign = if e < 0 then Decimal.minus else Decimal.plus := by
  unfold Layout.exponentText
  by_cases h : e < 0
  · rw [if_pos h, if_pos h]
    exact ⟨_, rfl, rfl⟩
  · rw [if_neg h, if_neg h]
    exact ⟨_, rfl, rfl⟩

/-- What follows the fraction is no digit and no point. -/
theorem head_exponentText (hrest : ∀ u ∈ rest.head?, isPart u = false) :
    ∀ u ∈ (p.exponentText ++ rest).head?, u.isDigit = false ∧ u ≠ Decimal.point := by
  unfold exponentText
  intro u hu
  split at hu
  · rename_i e _
    obtain ⟨sign, he, -⟩ := exists_exponentText_cons e
    rw [he] at hu
    cases hu
    decide
  · have hpart := hrest u hu
    simp only [isPart, Bool.or_eq_false_iff, beq_eq_false_iff_ne] at hpart
    exact ⟨hpart.1.1.1, hpart.1.1.2⟩

/-- What follows the whole digits is no digit. -/
theorem head_fractionText (hrest : ∀ u ∈ rest.head?, isPart u = false) :
    ∀ u ∈ (p.fractionText ++ (p.exponentText ++ rest)).head?, u.isDigit = false := by
  unfold fractionText
  intro u hu
  split at hu
  · exact (p.head_exponentText hrest u hu).1
  · cases hu
    exact isDigit_point

/-! ### Reading -/

theorem takeSign_text : Decimal.takeSign p.text =
    (p.negative, p.whole ++ (p.fractionText ++ p.exponentText)) := by
  unfold text signText
  cases p.negative with
  | true => rfl
  | false =>
    obtain ⟨u, more, hwhole, hdigit⟩ := p.exists_whole_cons
    have hu := isSign_of_isDigit hdigit
    rw [hwhole]
    unfold Decimal.takeSign
    simp only [Bool.false_eq_true, if_false, List.nil_append, List.cons_append, hu]

theorem takeFraction_of_stop {t : Text} (h : ∀ u ∈ t.head?, u ≠ Decimal.point) :
    Decimal.takeFraction t = ([], t) := by
  cases t with
  | nil => rfl
  | cons u rest => exact if_neg (by simpa using h u rfl)

theorem takeFraction_fractionText :
    Decimal.takeFraction (p.fractionText ++ p.exponentText) = (p.fraction, p.exponentText) := by
  have hstop : ∀ u ∈ (p.exponentText ++ []).head?, u.isDigit = false ∧ u ≠ Decimal.point :=
    p.head_exponentText fun _ h => nomatch h
  rw [List.append_nil] at hstop
  unfold fractionText
  split
  · rename_i hf
    rw [List.nil_append, hf]
    exact takeFraction_of_stop fun u hu => (hstop u hu).2
  · unfold Decimal.takeFraction
    simp only [List.cons_append, beq_self_eq_true, if_true]
    rw [Text.takeWhile_append_stop p.digits_fraction fun u hu => (hstop u hu).1,
      Text.dropWhile_append_stop p.digits_fraction fun u hu => (hstop u hu).1]

theorem readExponent_exponentText : Decimal.readExponent p.exponentText = p.exponent.getD 0 := by
  unfold exponentText
  cases p.exponent with
  | none => rfl
  | some e =>
    obtain ⟨sign, he, hsign⟩ := exists_exponentText_cons e
    have hall : (Decimal.digitText e.natAbs).takeWhile CodeUnit.isDigit
        = Decimal.digitText e.natAbs := by
      have := Text.takeWhile_append_stop (t := []) (digits_digitText e.natAbs)
        fun _ h => nomatch h
      rwa [List.append_nil] at this
    simp only [he, Decimal.readExponent]
    rw [if_pos (by decide)]
    by_cases hneg : e < 0
    · rw [hsign, if_pos hneg]
      show -(Decimal.digitsValue
        ((Decimal.digitText e.natAbs).takeWhile CodeUnit.isDigit) : Int) = e
      rw [hall, Decimal.digitsValue_digitText]
      omega
    · rw [hsign, if_neg hneg]
      show (Decimal.digitsValue ((Decimal.digitText e.natAbs).takeWhile CodeUnit.isDigit) : Int) = e
      rw [hall, Decimal.digitsValue_digitText]
      omega

/-- The text of parts reads as their decimal. -/
theorem read_text : Decimal.read p.text = p.decimal := by
  have hstop : ∀ u ∈ (p.fractionText ++ (p.exponentText ++ [])).head?, u.isDigit = false :=
    p.head_fractionText fun _ h => nomatch h
  rw [List.append_nil] at hstop
  unfold Decimal.read
  rw [p.takeSign_text]
  dsimp only
  rw [Text.takeWhile_append_stop p.digits_whole hstop,
    Text.dropWhile_append_stop p.digits_whole hstop, p.takeFraction_fractionText]
  dsimp only
  rw [p.readExponent_exponentText]
  rfl

end Parts

/-- The text is a numeral, and it reads as the decimal. -/
def Denotes (t : Text) (d : Decimal) : Prop := ∃ p : Parts, p.text = t ∧ p.decimal = d

/-! ## Layouts -/

section
variable (negative : Bool) {ds : Text} (hd : Digits ds)

include hd

section
variable (hne : ds ≠ []) (hhead : ds.head? ≠ some 0x30)

include hne hhead

/-- Digits with zeros behind them. -/
theorem denotes_zeros (k : Nat) : Denotes (Parts.signText negative ++ (ds ++ Layout.zeros k))
    ⟨negative, Decimal.digitsValue ds * Nat.pow 10 k, 0⟩ := by
  have hwhole : (ds ++ Layout.zeros k).head? ≠ some 0x30 := by
    obtain ⟨u, more, rfl⟩ := List.exists_cons_of_ne_nil hne
    exact hhead
  refine ⟨{ negative, whole := ds ++ Layout.zeros k
            digits_whole := hd.append (digits_zeros k)
            whole_ne_nil := List.append_ne_nil_of_left_ne_nil hne _
            zero_alone := fun h => absurd h hwhole }, ?_, ?_⟩
  · exact congrArg (_ ++ ·) (List.append_nil _)
  · show Decimal.mk negative (Decimal.digitsValue (ds ++ Layout.zeros k ++ [])) 0 = _
    rw [List.append_nil, Decimal.digitsValue_append, Decimal.digitsValue_zeros, Nat.add_zero,
      Layout.zeros, List.length_replicate]

/-- Digits with the point after some of them, and maybe an exponent. -/
theorem exists_parts_split {k : Nat} (hk : 0 < k) (exponent : Option Int) :
    ∃ p : Parts, p.negative = negative ∧ p.whole = ds.take k ∧ p.fraction = ds.drop k ∧
      p.exponent = exponent := by
  refine ⟨{ negative, whole := ds.take k, fraction := ds.drop k, exponent
            digits_whole := fun u hu => hd u (List.mem_of_mem_take hu)
            digits_fraction := fun u hu => hd u (List.mem_of_mem_drop hu)
            whole_ne_nil := ?_, zero_alone := fun h => absurd h ?_ }, rfl, rfl, rfl, rfl⟩
  · simpa using ⟨Nat.ne_of_gt hk, hne⟩
  · rw [List.head?_take, if_neg (Nat.ne_of_gt hk)]
    exact hhead

theorem denotes_split {k : Nat} (hk : 0 < k) (hlt : k < ds.length) :
    Denotes (Parts.signText negative ++ (ds.take k ++ Decimal.point :: ds.drop k))
      ⟨negative, Decimal.digitsValue ds, (k : Int) - ds.length⟩ := by
  obtain ⟨p, hn, hw, hf, he⟩ := exists_parts_split negative hd hne hhead hk none
  have hrest : ds.drop k ≠ [] := by
    rw [ne_eq, List.drop_eq_nil_iff]
    omega
  refine ⟨p, ?_, ?_⟩
  · unfold Parts.text Parts.fractionText Parts.exponentText
    rw [hn, hw, hf, he, if_neg hrest, List.append_nil]
  · have hexponent : (0 : Int) - ((ds.length - k : Nat) : Int) = (k : Int) - ds.length := by omega
    unfold Parts.decimal
    rw [hn, hw, hf, he, List.take_append_drop, List.length_drop, Option.getD_none, hexponent]

/-- One digit before the point, and an exponent behind the others. -/
theorem denotes_scaled (e : Int) :
    Denotes (Parts.signText negative ++ (ds.take 1
        ++ (if ds.length = 1 then [] else Decimal.point :: ds.drop 1) ++ Layout.exponentText e))
      ⟨negative, Decimal.digitsValue ds, e + 1 - ds.length⟩ := by
  obtain ⟨p, hn, hw, hf, he⟩ := exists_parts_split negative hd hne hhead Nat.one_pos (some e)
  have hpos := List.length_pos_iff.2 hne
  have hdrop : ds.drop 1 = [] ↔ ds.length = 1 := by
    rw [List.drop_eq_nil_iff]
    omega
  refine ⟨p, ?_, ?_⟩
  · unfold Parts.text Parts.fractionText Parts.exponentText
    rw [hn, hw, hf, he, ← List.append_assoc (ds.take 1)]
    simp only [hdrop]
  · have hexponent : e - ((ds.length - 1 : Nat) : Int) = e + 1 - ds.length := by omega
    unfold Parts.decimal
    rw [hn, hw, hf, he, List.take_append_drop, List.length_drop, Option.getD_some, hexponent]

end

/-- A zero, the point and zeros before the digits. -/
theorem denotes_behind (hne : ds ≠ []) (k : Nat) :
    Denotes (Parts.signText negative ++ (0x30 :: Decimal.point :: (Layout.zeros k ++ ds)))
      ⟨negative, Decimal.digitsValue ds, -((k : Int) + ds.length)⟩ := by
  refine ⟨{ negative, whole := [0x30], fraction := Layout.zeros k ++ ds
            digits_whole := digits_zeros 1, whole_ne_nil := List.cons_ne_nil _ _
            digits_fraction := (digits_zeros k).append hd, zero_alone := fun _ => rfl }, ?_, ?_⟩
  · unfold Parts.text Parts.fractionText Parts.exponentText
    rw [if_neg (List.append_ne_nil_of_right_ne_nil _ hne), List.append_nil]
    rfl
  · have hzero : Decimal.digitsValue [0x30] = 0 := rfl
    have hexponent : (0 : Int) - ((k + ds.length : Nat) : Int) = -((k : Int) + ds.length) := by
      omega
    unfold Parts.decimal
    dsimp only [Option.getD_none]
    rw [Decimal.digitsValue_append, hzero, Nat.zero_mul, Nat.zero_add, Decimal.digitsValue_append,
      Decimal.digitsValue_zeros, Nat.zero_mul, Nat.zero_add, List.length_append, Layout.zeros,
      List.length_replicate, hexponent]

end

/-- Every layout of a decimal denotes a decimal of its magnitude. -/
theorem exists_denotes_write (negative : Bool) {d : Decimal} (hd : d.digits ≠ 0) :
    ∃ d' : Decimal, Denotes (Parts.signText negative ++ Layout.standard.write d) d' ∧
      d'.negative = negative ∧ d'.magnitude = d.magnitude := by
  obtain ⟨sign, n, e⟩ := d
  have hdigits := digits_digitText n
  have hne := Decimal.digitText_ne_nil n
  have hhead := Decimal.head_digitText hd
  have hvalue := Decimal.digitsValue_digitText n
  unfold Layout.write
  dsimp only
  generalize Decimal.digitText n = ds at *
  split
  · rename_i h
    simp only [Bool.and_eq_true, decide_eq_true_eq] at h
    have he : (e.toNat : Int) = e := Int.toNat_of_nonneg (by omega)
    refine ⟨_, denotes_zeros negative hdigits hne hhead e.toNat, rfl, ?_⟩
    rw [hvalue, Decimal.magnitude_mul_pow, he]
    rfl
  · rename_i hwhole
    simp only [Bool.and_eq_true, decide_eq_true_eq, not_and] at hwhole
    split
    · rename_i h
      simp only [Bool.and_eq_true, decide_eq_true_eq] at h
      have he : ((((ds.length : Int) + e).toNat : Nat) : Int) - ds.length = e := by omega
      refine ⟨_, denotes_split negative hdigits hne hhead (by omega) (by omega), rfl, ?_⟩
      rw [hvalue, he]
      rfl
    · split
      · rename_i h
        simp only [Bool.and_eq_true, decide_eq_true_eq] at h
        have he : -((((-((ds.length : Int) + e)).toNat : Nat) : Int) + ds.length) = e := by omega
        refine ⟨_, denotes_behind negative hdigits hne _, rfl, ?_⟩
        rw [hvalue, he]
        rfl
      · have he : (ds.length : Int) + e - 1 + 1 - ds.length = e := by omega
        refine ⟨_, denotes_scaled negative hdigits hne hhead _, rfl, ?_⟩
        rw [hvalue, he]
        rfl

end Numeral

/-! ## Doubles -/

namespace Number

theorem digits_shortest_ne_zero {m : Nat} (hpos : 0 < m) (h : m < infinityBits) :
    (shortest m).digits ≠ 0 := by
  intro hd
  have hm := magnitude_shortest hpos h
  unfold Decimal.magnitude at hm
  rw [if_pos hd] at hm
  omega

/-- The text of a finite double denotes the double, without the sign of a zero. -/
theorem exists_denotes_text {x : Float} (h : isFinite x = true) :
    ∃ d : Decimal, Numeral.Denotes (text x) d ∧ d.toFloat = withoutZeroSign x := by
  have hlt : magnitudeBits x < infinityBits := of_decide_eq_true h
  unfold text magnitudeText
  dsimp only
  by_cases hzero : magnitudeBits x = 0
  · rw [hzero, withoutZeroSign_of_eq hzero]
    refine ⟨⟨false, 0, 0⟩, ?_, if_pos rfl⟩
    rw [if_neg (by simp), if_pos rfl]
    exact ⟨{ whole := [0x30], digits_whole := Numeral.digits_zeros 1
             whole_ne_nil := List.cons_ne_nil _ _, zero_alone := fun _ => rfl }, rfl, rfl⟩
  · have hpos := Nat.pos_of_ne_zero hzero
    obtain ⟨d, hd, hsign, hmagnitude⟩ :=
      Numeral.exists_denotes_write (isNegative x) (digits_shortest_ne_zero hpos hlt)
    refine ⟨d, ?_, ?_⟩
    · have hsigned : (isNegative x && decide (0 < magnitudeBits x)
          && decide (magnitudeBits x ≤ infinityBits)) = isNegative x := by
        rw [decide_eq_true hpos, decide_eq_true (Nat.le_of_lt hlt), Bool.and_true, Bool.and_true]
      rw [hsigned, if_neg hzero, if_pos hlt]
      exact hd
    · rw [Decimal.toFloat_eq, hsign, hmagnitude, magnitude_shortest hpos hlt,
        withoutZeroSign_of_ne hzero]
      exact withSign_magnitudeBits x

end Number

end VirtualChannels
