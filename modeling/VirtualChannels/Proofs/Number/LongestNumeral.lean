import Mathlib.Data.List.TakeWhile
import VirtualChannels.Number.Numeral

/-
  The numerals at the start of a text. `Numeral.length` is the length of a numeral
  (`isNumeral_take_length`) and no numeral that the text starts with is longer
  (`length_le_of_isNumeral`).
-/

namespace VirtualChannels.Numeral

/-- A text of digits. -/
def Digits (t : Text) : Prop := ∀ u ∈ t, u.isDigit = true

/-- Digits, or a point with digits on at least one side. -/
inductive IsMantissa : Text → Prop
  | whole {ds : Text} (hd : Digits ds) (hne : ds ≠ []) : IsMantissa ds
  | pointed {ds fs : Text} (hd : Digits ds) (hf : Digits fs) (hne : ds ≠ [] ∨ fs ≠ []) :
      IsMantissa (ds ++ Decimal.point :: fs)

/-- A mark, at most one sign, and digits. -/
inductive IsExponent : Text → Prop
  | unsigned {mark : CodeUnit} {ds : Text} (hm : Decimal.isExponentMark mark = true)
      (hd : Digits ds) (hne : ds ≠ []) : IsExponent (mark :: ds)
  | signed {mark sign : CodeUnit} {ds : Text} (hm : Decimal.isExponentMark mark = true)
      (hs : Decimal.isSign sign = true) (hd : Digits ds) (hne : ds ≠ []) :
      IsExponent (mark :: sign :: ds)

inductive IsNumeral : Text → Prop
  | plain {m : Text} (hm : IsMantissa m) : IsNumeral m
  | scaled {m e : Text} (hm : IsMantissa m) (he : IsExponent e) : IsNumeral (m ++ e)

/-! ## Digits -/

theorem digitRun_append {ds : Text} (hd : Digits ds) (t : Text) :
    digitRun (ds ++ t) = ds.length + digitRun t := by
  rw [digitRun, List.takeWhile_append_of_pos hd, List.length_append]
  rfl

theorem digitRun_eq_zero {u : CodeUnit} (h : u.isDigit = false) (t : Text) :
    digitRun (u :: t) = 0 := by
  rw [digitRun, List.takeWhile_cons_of_neg (by rw [h]; exact Bool.false_ne_true)]
  rfl

theorem take_digitRun (t : Text) : t.take (digitRun t) = t.takeWhile CodeUnit.isDigit :=
  (List.prefix_iff_eq_take.1 (List.takeWhile_prefix _)).symm

theorem digits_take_digitRun (t : Text) : Digits (t.take (digitRun t)) := by
  rw [take_digitRun]
  exact fun u hu => List.mem_takeWhile_imp hu

theorem length_take_digitRun (t : Text) : (t.take (digitRun t)).length = digitRun t := by
  rw [List.length_take, Nat.min_eq_left (digitRun_le t)]

theorem digits_ne_nil {t : Text} (h : digitRun t ≠ 0) : t.take (digitRun t) ≠ [] := by
  intro e
  have := length_take_digitRun t
  rw [e] at this
  exact h this.symm

theorem isDigit_point : Decimal.point.isDigit = false := by decide

theorem isDigit_of_isExponentMark {u : CodeUnit} (h : Decimal.isExponentMark u = true) :
    u.isDigit = false := by
  rcases Bool.or_eq_true_iff.1 h with h | h
  · rw [eq_of_beq h]; decide
  · rw [eq_of_beq h]; decide

theorem ne_point_of_isExponentMark {u : CodeUnit} (h : Decimal.isExponentMark u = true) :
    (u == Decimal.point) = false := by
  rcases Bool.or_eq_true_iff.1 h with h | h
  · rw [eq_of_beq h]; decide
  · rw [eq_of_beq h]; decide

theorem isSign_of_isDigit {u : CodeUnit} (h : u.isDigit = true) : Decimal.isSign u = false := by
  by_contra hs
  rcases Bool.or_eq_true_iff.1 (Bool.not_eq_false _ ▸ hs) with e | e
  · rw [eq_of_beq e] at h; revert h; decide
  · rw [eq_of_beq e] at h; revert h; decide

/-! ## A numeral is no longer than the one that is read -/

theorem IsMantissa.ne_nil {m : Text} (hm : IsMantissa m) : m ≠ [] := by
  cases hm with
  | whole hd hne => exact hne
  | pointed hd hf hne => simp

/-- What follows digits is a point, or the digits are all. -/
theorem mantissaLength_digits {ds : Text} (hd : Digits ds) (hne : ds ≠ []) (t : Text) :
    ds.length ≤ mantissaLength (ds ++ t) := by
  have hpos := List.length_pos_iff.2 hne
  have hrun := digitRun_append hd t
  unfold mantissaLength
  dsimp only
  split
  · split
    · split
      · rename_i h
        simp only [Bool.and_eq_true, decide_eq_true_eq] at h
        omega
      · omega
    · omega
  · omega

theorem mantissaLength_pointed {ds fs : Text} (hd : Digits ds) (hf : Digits fs)
    (hne : ds ≠ [] ∨ fs ≠ []) (t : Text) :
    mantissaLength (ds ++ Decimal.point :: (fs ++ t)) = ds.length + 1 + fs.length + digitRun t := by
  have hrun : digitRun (ds ++ Decimal.point :: (fs ++ t)) = ds.length := by
    rw [digitRun_append hd, digitRun_eq_zero isDigit_point, Nat.add_zero]
  have hpos : ¬(ds.length = 0 ∧ fs.length + digitRun t = 0) := by
    rintro ⟨h, h'⟩
    rcases hne with hne | hne
    · exact hne (List.eq_nil_of_length_eq_zero h)
    · exact hne (List.eq_nil_of_length_eq_zero (by omega))
  simp only [mantissaLength, hrun, List.drop_left, beq_self_eq_true, if_true, digitRun_append hf]
  rw [if_neg (by simpa using hpos)]
  omega

theorem mantissaLength_append {m : Text} (hm : IsMantissa m) (t : Text) :
    m.length ≤ mantissaLength (m ++ t) := by
  cases hm with
  | whole hd hne => exact mantissaLength_digits hd hne t
  | pointed hd hf hne =>
    rw [List.append_assoc, List.cons_append, mantissaLength_pointed hd hf hne]
    simp only [List.length_append, List.length_cons]
    omega

/-- An exponent mark ends the mantissa before it. -/
theorem mantissaLength_append_mark {m : Text} (hm : IsMantissa m) {mark : CodeUnit}
    (hmark : Decimal.isExponentMark mark = true) (t : Text) :
    mantissaLength (m ++ mark :: t) = m.length := by
  have hzero := digitRun_eq_zero (isDigit_of_isExponentMark hmark) t
  cases hm with
  | whole hd hne =>
    simp only [mantissaLength, digitRun_append hd, hzero, Nat.add_zero, List.drop_left,
      ne_point_of_isExponentMark hmark, Bool.false_eq_true, if_false]
  | pointed hd hf hne =>
    rw [List.append_assoc, List.cons_append, mantissaLength_pointed hd hf hne, hzero]
    simp only [List.length_append, List.length_cons]
    omega

theorem exponentLength_append {e : Text} (he : IsExponent e) (t : Text) :
    e.length ≤ exponentLength (e ++ t) := by
  cases he with
  | @unsigned mark ds hm hd hne =>
    have hpos := List.length_pos_iff.2 hne
    have hsign : (ds ++ t).head?.any Decimal.isSign = false := by
      obtain ⟨d, more, rfl⟩ := List.exists_cons_of_ne_nil hne
      exact isSign_of_isDigit (hd d List.mem_cons_self)
    simp only [List.cons_append, exponentLength, hm, if_true, hsign, Bool.false_eq_true, if_false,
      List.drop_zero, digitRun_append hd, List.length_cons]
    rw [if_neg (by omega)]
    omega
  | @signed mark sign ds hm hs hd hne =>
    have hpos := List.length_pos_iff.2 hne
    simp only [List.cons_append, exponentLength, hm, if_true, List.head?_cons, Option.any_some, hs,
      List.drop_succ_cons, List.drop_zero, digitRun_append hd, List.length_cons]
    rw [if_neg (by omega)]
    omega

theorem length_append {p : Text} (hp : IsNumeral p) (t : Text) : p.length ≤ length (p ++ t) := by
  unfold length
  dsimp only
  cases hp with
  | plain hm =>
    have hle := mantissaLength_append hm t
    have hpos := List.length_pos_iff.2 hm.ne_nil
    rw [if_neg (by omega)]
    omega
  | @scaled m e hm he =>
    have hle := exponentLength_append he t
    have hpos := List.length_pos_iff.2 hm.ne_nil
    have hmark : mantissaLength (m ++ (e ++ t)) = m.length := by
      cases he with
      | unsigned hmark hd hne => exact mantissaLength_append_mark hm hmark _
      | signed hmark hs hd hne => exact mantissaLength_append_mark hm hmark _
    rw [List.append_assoc, hmark, if_neg (by omega), List.drop_left, List.length_append]
    omega

/-- No numeral at the start of a text is longer than the one that is read. -/
theorem length_le_of_isNumeral {p t : Text} (hp : IsNumeral p) (h : p <+: t) :
    p.length ≤ length t := by
  obtain ⟨rest, rfl⟩ := h
  exact length_append hp rest

theorem length_ne_zero_of_isDigit {u : CodeUnit} (h : u.isDigit = true) (rest : Text) :
    length (u :: rest) ≠ 0 := by
  have hnumeral : IsNumeral [u] := by
    refine .plain (.whole (fun v hv => ?_) (List.cons_ne_nil u []))
    rwa [List.mem_singleton.1 hv]
  have hle := length_append hnumeral rest
  rw [List.length_singleton] at hle
  exact Nat.ne_of_gt hle

/-! ## What is read is a numeral -/

theorem isMantissa_take {t : Text} (h : mantissaLength t ≠ 0) :
    IsMantissa (t.take (mantissaLength t)) := by
  have hd := digits_take_digitRun t
  have hwhole : digitRun t ≠ 0 → IsMantissa (t.take (digitRun t)) :=
    fun hne => .whole hd (digits_ne_nil hne)
  unfold mantissaLength at h ⊢
  dsimp only at h ⊢
  split at h
  · rename_i u rest e
    split at h
    · rename_i hu
      rw [if_pos hu]
      split at h
      · exact absurd rfl h
      · rename_i hne
        rw [if_neg hne, Nat.add_assoc, List.take_add, e, Nat.add_comm 1, List.take_succ_cons,
          eq_of_beq hu]
        refine .pointed hd (digits_take_digitRun rest) ?_
        simp only [Bool.and_eq_true, decide_eq_true_eq, not_and_or] at hne
        rcases hne with hne | hne
        · exact Or.inl (digits_ne_nil hne)
        · exact Or.inr (digits_ne_nil hne)
    · rename_i hu
      rw [if_neg hu]
      exact hwhole h
  · exact hwhole h

theorem isExponent_take {t : Text} (h : exponentLength t ≠ 0) :
    IsExponent (t.take (exponentLength t)) := by
  cases t with
  | nil => exact absurd rfl h
  | cons mark rest =>
    simp only [exponentLength] at h ⊢
    split at h
    · rename_i hm
      rw [if_pos hm]
      by_cases hs : rest.head?.any Decimal.isSign = true
      · obtain ⟨sign, more, rfl⟩ : ∃ sign more, rest = sign :: more := by
          cases rest with
          | nil => cases hs
          | cons sign more => exact ⟨sign, more, rfl⟩
        simp only [if_pos hs, List.drop_succ_cons, List.drop_zero] at h ⊢
        split at h
        · exact absurd rfl h
        · rename_i hd
          rw [if_neg hd, Nat.add_comm, ← Nat.add_assoc, List.take_succ_cons, List.take_succ_cons]
          exact .signed hm hs (digits_take_digitRun more) (digits_ne_nil hd)
      · simp only [if_neg hs, List.drop_zero] at h ⊢
        split at h
        · exact absurd rfl h
        · rename_i hd
          rw [if_neg hd, Nat.add_zero, Nat.add_comm, List.take_succ_cons]
          exact .unsigned hm (digits_take_digitRun rest) (digits_ne_nil hd)
    · exact absurd rfl h

theorem isNumeral_take_length {t : Text} (h : length t ≠ 0) : IsNumeral (t.take (length t)) := by
  unfold length at h ⊢
  dsimp only at h ⊢
  split at h
  · exact absurd rfl h
  · rename_i hm
    rw [if_neg hm, List.take_add]
    by_cases he : exponentLength (t.drop (mantissaLength t)) = 0
    · rw [he, List.take_zero, List.append_nil]
      exact .plain (isMantissa_take hm)
    · exact .scaled (isMantissa_take hm) (isExponent_take he)

/-! ## What ends a numeral -/

/-- The units that numerals are made of. -/
def isPart (u : CodeUnit) : Bool :=
  u.isDigit || u == Decimal.point || Decimal.isExponentMark u || Decimal.isSign u

theorem isPart_of_isDigit {u : CodeUnit} (h : u.isDigit = true) : isPart u = true := by
  simp [isPart, h]

theorem isPart_of_isExponentMark {u : CodeUnit} (h : Decimal.isExponentMark u = true) :
    isPart u = true := by
  simp [isPart, h]

theorem IsMantissa.isPart {m : Text} (hm : IsMantissa m) {u : CodeUnit} (hu : u ∈ m) :
    Numeral.isPart u = true := by
  cases hm with
  | whole hd hne => exact isPart_of_isDigit (hd u hu)
  | pointed hd hf hne =>
    rcases List.mem_append.1 hu with hu | hu
    · exact isPart_of_isDigit (hd u hu)
    · rcases List.mem_cons.1 hu with rfl | hu
      · decide
      · exact isPart_of_isDigit (hf u hu)

theorem IsExponent.isPart {e : Text} (he : IsExponent e) {u : CodeUnit} (hu : u ∈ e) :
    Numeral.isPart u = true := by
  cases he with
  | unsigned hm hd hne =>
    rcases List.mem_cons.1 hu with rfl | hu
    · exact isPart_of_isExponentMark hm
    · exact isPart_of_isDigit (hd u hu)
  | signed hm hs hd hne =>
    rcases List.mem_cons.1 hu with rfl | hu
    · exact isPart_of_isExponentMark hm
    · rcases List.mem_cons.1 hu with rfl | hu
      · simp [Numeral.isPart, hs]
      · exact isPart_of_isDigit (hd u hu)

theorem IsNumeral.isPart {p : Text} (hp : IsNumeral p) {u : CodeUnit} (hu : u ∈ p) :
    Numeral.isPart u = true := by
  cases hp with
  | plain hm => exact hm.isPart hu
  | scaled hm he =>
    rcases List.mem_append.1 hu with hu | hu
    · exact hm.isPart hu
    · exact he.isPart hu

/-- What follows a text adds to its numeral at most as much as anything, if no numeral goes on
with it. -/
theorem length_le_of_stop {s b : Text} (hb : ∀ u ∈ b.head?, isPart u = false) (a : Text) :
    length (s ++ b) ≤ length (s ++ a) := by
  by_cases h : length (s ++ b) = 0
  · omega
  · have hnumeral := isNumeral_take_length h
    have hwithin : (s ++ b).take (length (s ++ b)) <+: s := by
      rcases List.prefix_or_prefix_of_prefix (List.take_prefix _ _) (List.prefix_append s b)
        with hq | ⟨q, hq⟩
      · exact hq
      · cases q with
        | nil =>
          have e : (s ++ b).take (length (s ++ b)) = s := hq.symm.trans (List.append_nil s)
          exact ⟨[], (List.append_nil _).trans e⟩
        | cons u q =>
          have hu : b.head? = some u := by
            have hpre : s ++ u :: q <+: s ++ b := hq ▸ List.take_prefix _ _
            obtain ⟨rest, e⟩ := (List.prefix_append_right_inj s).1 hpre
            rw [← e]
            rfl
          have hpart := hnumeral.isPart (u := u) (by rw [← hq]; simp)
          rw [hb u hu] at hpart
          cases hpart
    have hle := length_le_of_isNumeral hnumeral (hwithin.trans (List.prefix_append s a))
    rwa [List.length_take, Nat.min_eq_left (length_le _)] at hle

/-- A text that ends with its numeral keeps it when the numeral does not go on. -/
theorem length_eq_of_stop {p c a b : Text} (hne : p ≠ []) (hp : length (p ++ (c ++ a)) = p.length)
    (hb : ∀ u ∈ b.head?, isPart u = false) : length (p ++ (c ++ b)) = p.length := by
  have hle : length (p ++ (c ++ b)) ≤ length (p ++ (c ++ a)) := by
    rw [← List.append_assoc, ← List.append_assoc]
    exact length_le_of_stop hb a
  have hpos := List.length_pos_iff.2 hne
  have hnumeral := isNumeral_take_length (t := p ++ (c ++ a)) (by omega)
  rw [hp, List.take_left] at hnumeral
  have hge := length_append hnumeral (c ++ b)
  omega

end VirtualChannels.Numeral
