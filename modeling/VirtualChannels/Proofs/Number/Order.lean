import VirtualChannels.Number.Double
import VirtualChannels.Proofs.Number.ReadingBack
import VirtualChannels.Proofs.Number.Shapes

/-
  The order of doubles. Every double that is a number has a rank, its magnitude with its sign;
  both zeros have the rank 0. Comparing is comparing ranks (`lt_iff`, `le_iff`, `beq_iff`), and
  the nearest double to a fraction has a rank that does not fall as the fraction grows
  (`nearestBits_mono`).
-/

namespace VirtualChannels.Number

open Float.Model (UnpackedFloat)
open Float.Model.UnpackedFloat

/-! ## Comparing shapes -/

theorem compare_neg_neg (a b : Int) : compare (-a) (-b) = (compare a b).swap := by
  rw [Int.compare_swap]
  rcases Int.lt_trichotomy a b with h | rfl | h
  · rw [Int.compare_eq_gt.2 (by omega), Int.compare_eq_gt.2 h]
  · rw [Int.compare_eq_eq.2 rfl, Int.compare_eq_eq.2 rfl]
  · rw [Int.compare_eq_lt.2 (by omega), Int.compare_eq_lt.2 h]

/-- Exponents first and mantissas second is the order of the magnitudes. -/
theorem compare_mantissas {m m' : Nat} {e e' : Int} (h : Normalized m e) (h' : Normalized m' e') :
    (compare e e').then (compare m m') =
      compare ((e + 1074) * leadingBit + m) ((e' + 1074) * leadingBit + m') := by
  obtain ⟨-, hlt, hleast, hnormal⟩ := h
  obtain ⟨-, hlt', hleast', hnormal'⟩ := h'
  unfold leadingBit at *
  rcases Int.lt_trichotomy e e' with he | rfl | he
  · rw [Int.compare_eq_lt.2 he, Int.compare_eq_lt.2 (by omega)]
    rfl
  · rw [Int.compare_eq_eq.2 rfl, Ordering.eq_then]
    rcases Nat.lt_trichotomy m m' with hm | rfl | hm
    · rw [Nat.compare_eq_lt.2 hm, Int.compare_eq_lt.2 (by omega)]
    · rw [Nat.compare_eq_eq.2 rfl, Int.compare_eq_eq.2 rfl]
    · rw [Nat.compare_eq_gt.2 hm, Int.compare_eq_gt.2 (by omega)]
  · rw [Int.compare_eq_gt.2 he, Int.compare_eq_gt.2 (by omega)]
    rfl

theorem signed_zero (negative : Bool) : signed negative 0 = 0 := by
  cases negative <;> rfl

theorem between_infinities (negative : Bool) {a : Nat} (h : a < infinityBits) :
    signed true infinityBits < signed negative a ∧
      signed negative a < signed false infinityBits := by
  unfold signed
  simp only [if_true, Bool.false_eq_true, if_false]
  split <;> omega

theorem Normalized.magnitude_pos {m a : Nat} {e : Int} (h : Normalized m e)
    (ha : (a : Int) = (e + 1074) * leadingBit + m) : 0 < (a : Int) := by
  have hpos := h.pos
  have hleast := h.least
  unfold leadingBit at ha
  omega

section
variable {n n' : Bool} {a a' : Nat} {u u' : UnpackedFloat}

theorem Shape.compare_infinity (h : Shape n a u) (ha : a ≤ infinityBits) :
    (UnpackedFloat.infinity (signOf n')).compare u =
      some (compare (signed n' infinityBits) (signed n a)) := by
  cases h with
  | notANumber h => exact absurd ha (Nat.not_le.2 h)
  | infinity h =>
    subst h
    cases n <;> cases n' <;> rfl
  | zero h =>
    subst h
    cases n <;> cases n' <;> rfl
  | finite m e hm hn hlt h =>
    obtain ⟨habove, hbelow⟩ := between_infinities n hlt
    cases n' with
    | false =>
      rw [Int.compare_eq_gt.2 hbelow]
      rfl
    | true =>
      rw [Int.compare_eq_lt.2 habove]
      rfl

theorem Shape.compare_zero (h : Shape n a u) (ha : a ≤ infinityBits) :
    (UnpackedFloat.zero (signOf n')).compare u =
      some (compare (signed n' 0) (signed n a)) := by
  rw [signed_zero]
  cases h with
  | notANumber h => exact absurd ha (Nat.not_le.2 h)
  | infinity h =>
    subst h
    cases n <;> cases n' <;> rfl
  | zero h =>
    subst h
    cases n <;> cases n' <;> rfl
  | finite m e hm hn hlt h =>
    have hpos := hn.magnitude_pos h
    cases n with
    | false =>
      have habove : 0 < signed false a := hpos
      rw [Int.compare_eq_lt.2 habove]
      rfl
    | true =>
      have hbelow : signed true a < 0 := Int.neg_neg_of_pos hpos
      rw [Int.compare_eq_gt.2 hbelow]
      rfl

theorem Shape.compare_finite {m : Nat} {e : Int} {hm : 0 < m} (h : Shape n a u)
    (ha : a ≤ infinityBits) (hn : Normalized m e) (hlt : a' < infinityBits)
    (h' : (a' : Int) = (e + 1074) * leadingBit + m) :
    (UnpackedFloat.finite (signOf n') m e hm).compare u =
      some (compare (signed n' a') (signed n a)) := by
  have hpos := hn.magnitude_pos h'
  cases h with
  | notANumber h => exact absurd ha (Nat.not_le.2 h)
  | infinity h =>
    subst h
    obtain ⟨hbelow, habove⟩ := between_infinities n' hlt
    cases n with
    | false =>
      rw [Int.compare_eq_lt.2 habove]
      rfl
    | true =>
      rw [Int.compare_eq_gt.2 hbelow]
      rfl
  | zero h =>
    subst h
    rw [signed_zero]
    cases n' with
    | false =>
      have hbelow : 0 < signed false a' := hpos
      rw [Int.compare_eq_gt.2 hbelow]
      rfl
    | true =>
      have habove : signed true a' < 0 := Int.neg_neg_of_pos hpos
      rw [Int.compare_eq_lt.2 habove]
      rfl
  | finite m₁ e₁ hm₁ hn₁ hlt₁ h =>
    have hpos₁ := hn₁.magnitude_pos h
    have hcompare := compare_mantissas hn hn₁
    rw [← h, ← h'] at hcompare
    cases n' with
    | false =>
      cases n with
      | false => exact congrArg some hcompare
      | true =>
        have hbelow : signed true a < signed false a' :=
          Int.lt_trans (Int.neg_neg_of_pos hpos₁) hpos
        rw [Int.compare_eq_gt.2 hbelow]
        rfl
    | true =>
      cases n with
      | false =>
        have habove : signed true a' < signed false a :=
          Int.lt_trans (Int.neg_neg_of_pos hpos) hpos₁
        rw [Int.compare_eq_lt.2 habove]
        rfl
      | true =>
        have hswap := congrArg Ordering.swap hcompare
        exact congrArg some (hswap.trans (compare_neg_neg _ _).symm)

/-- Doubles that are numbers compare as their magnitudes with their signs do. -/
theorem compare_shapes (h : Shape n a u) (h' : Shape n' a' u') (ha : a ≤ infinityBits)
    (ha' : a' ≤ infinityBits) : u.compare u' = some (compare (signed n a) (signed n' a')) := by
  cases h with
  | notANumber h => exact absurd ha (Nat.not_le.2 h)
  | infinity h =>
    subst h
    exact h'.compare_infinity ha'
  | zero h =>
    subst h
    exact h'.compare_zero ha'
  | finite m e hm hn hlt h => exact h'.compare_finite ha' hn hlt h

end

/-! ## Ranks -/

/-- The place of a double in the order of doubles; both zeros have the same one. -/
def rank (x : Float) : Int := signed (isNegative x) (magnitudeBits x)

/-- Whether a double is a number, which infinities are. -/
def isNumber (x : Float) : Bool := magnitudeBits x ≤ infinityBits

theorem isNumber_of_isFinite {x : Float} (h : isFinite x = true) : isNumber x = true :=
  decide_eq_true (Nat.le_of_lt (of_decide_eq_true h))

theorem isNaN_eq_false {x : Float} (h : isNumber x = true) : x.isNaN = false := by
  have hs := shape x
  have hle : magnitudeBits x ≤ infinityBits := of_decide_eq_true h
  show x.toModel.unpack.isNaN = false
  generalize x.toModel.unpack = u at hs
  cases hs with
  | notANumber h => exact absurd hle (Nat.not_le.2 h)
  | infinity h => rfl
  | zero h => rfl
  | finite m e hm hn hlt h => rfl

section
variable {x y : Float}

theorem compare_unpack (hx : isNumber x = true) (hy : isNumber y = true) :
    x.toModel.unpack.compare y.toModel.unpack = some (compare (rank x) (rank y)) :=
  compare_shapes (shape x) (shape y) (of_decide_eq_true hx) (of_decide_eq_true hy)

theorem lt_iff (hx : isNumber x = true) (hy : isNumber y = true) :
    x < y ↔ rank x < rank y := by
  have hlt : x < y ↔ (x.toModel.unpack.compare y.toModel.unpack == some .lt) = true :=
    decide_eq_true_iff
  rw [hlt, compare_unpack hx hy, beq_iff_eq, Option.some_inj]
  exact Int.compare_eq_lt

theorem le_iff (hx : isNumber x = true) (hy : isNumber y = true) :
    x ≤ y ↔ rank x ≤ rank y := by
  have hle : x ≤ y ↔ (x.toModel.unpack.compare y.toModel.unpack).any Ordering.isLE = true :=
    decide_eq_true_iff
  rw [hle, compare_unpack hx hy]
  exact Int.isLE_compare

theorem beq_iff (hx : isNumber x = true) (hy : isNumber y = true) :
    (x == y) = true ↔ rank x = rank y := by
  have heq : (x == y) = (x.toModel.unpack.compare y.toModel.unpack == some .eq) := rfl
  rw [heq, compare_unpack hx hy, beq_iff_eq, Option.some_inj]
  exact Int.compare_eq_eq

theorem unpack_of_not_isNumber (h : isNumber x = false) : x.toModel.unpack = .notANumber := by
  have hs := shape x
  have hlt : infinityBits < magnitudeBits x := Nat.not_le.1 (of_decide_eq_false h)
  generalize x.toModel.unpack = u at hs ⊢
  cases hs with
  | notANumber h => rfl
  | infinity h => exact absurd h (Nat.ne_of_gt hlt)
  | zero h => exact absurd h (Nat.ne_of_gt (Nat.zero_lt_of_lt hlt))
  | finite m e hm hn hfinite h => exact absurd hfinite (Nat.lt_asymm hlt)

/-- Only numbers stand in the order. -/
theorem isNumber_of_le (h : x ≤ y) : isNumber x = true ∧ isNumber y = true := by
  have hle : (x.toModel.unpack.compare y.toModel.unpack).any Ordering.isLE = true :=
    of_decide_eq_true h
  constructor
  · refine eq_true_of_ne_false fun hx => ?_
    rw [unpack_of_not_isNumber hx] at hle
    exact Bool.false_ne_true hle
  · refine eq_true_of_ne_false fun hy => ?_
    rw [unpack_of_not_isNumber hy] at hle
    cases hu : x.toModel.unpack <;> rw [hu] at hle <;> exact Bool.false_ne_true hle

theorem rank_le_of_le (h : x ≤ y) : rank x ≤ rank y :=
  (le_iff (isNumber_of_le h).1 (isNumber_of_le h).2).1 h

theorem le_trans {z : Float} (h : x ≤ y) (h' : y ≤ z) : x ≤ z :=
  (le_iff (isNumber_of_le h).1 (isNumber_of_le h').2).2
    (Int.le_trans (rank_le_of_le h) (rank_le_of_le h'))

/-- The lesser of two numbers is one of them. -/
theorem lesser_eq (hx : isNumber x = true) (hy : isNumber y = true) :
    (lesser x y = x ∧ rank x ≤ rank y) ∨ (lesser x y = y ∧ rank y ≤ rank x) := by
  unfold lesser
  rw [isNaN_eq_false hx, isNaN_eq_false hy, Bool.or_self, if_neg Bool.false_ne_true]
  simp only [lt_iff hx hy, lt_iff hy hx]
  split
  · exact Or.inl ⟨rfl, by omega⟩
  · split
    · exact Or.inr ⟨rfl, by omega⟩
    · split
      · exact Or.inl ⟨rfl, by omega⟩
      · exact Or.inr ⟨rfl, by omega⟩

theorem greater_eq (hx : isNumber x = true) (hy : isNumber y = true) :
    (greater x y = x ∧ rank y ≤ rank x) ∨ (greater x y = y ∧ rank x ≤ rank y) := by
  unfold greater
  rw [isNaN_eq_false hx, isNaN_eq_false hy, Bool.or_self, if_neg Bool.false_ne_true]
  simp only [lt_iff hx hy, lt_iff hy hx]
  split
  · exact Or.inr ⟨rfl, by omega⟩
  · split
    · exact Or.inl ⟨rfl, by omega⟩
    · split
      · exact Or.inr ⟨rfl, by omega⟩
      · exact Or.inl ⟨rfl, by omega⟩

end

/-! ## The nearest double -/

theorem roundDiv_bounds (num den : Nat) :
    num / den ≤ roundDiv num den ∧ roundDiv num den ≤ num / den + 1 := by
  unfold roundDiv
  dsimp only
  split
  · omega
  · split <;> omega

theorem roundDiv_mono {num num' : Nat} (den : Nat) (h : num ≤ num') :
    roundDiv num den ≤ roundDiv num' den := by
  have hquotient : num / den ≤ num' / den := Nat.div_le_div_right h
  have hmost := (roundDiv_bounds num den).2
  have hleast := (roundDiv_bounds num' den).1
  by_cases hsame : num / den = num' / den
  · have hsplit := Nat.div_add_mod num den
    have hsplit' := Nat.div_add_mod num' den
    rw [hsame] at hsplit
    have hrest : num % den ≤ num' % den := by omega
    unfold roundDiv
    dsimp only
    rw [hsame]
    repeat' split
    all_goals omega
  · omega

/-- The quotient rounded to 53 bits has no more, but for a carry, and no fewer if it is long
enough. -/
theorem roundDiv_log2 (num den : Nat) :
    roundDiv num (den * Nat.pow 2 (Nat.log2 (num / den) - 52)) ≤ 2 * leadingBit ∧
      (52 ≤ Nat.log2 (num / den) →
        leadingBit ≤ roundDiv num (den * Nat.pow 2 (Nat.log2 (num / den) - 52))) := by
  obtain ⟨hleast, hmost⟩ := roundDiv_bounds num (den * Nat.pow 2 (Nat.log2 (num / den) - 52))
  rw [← Nat.div_div_eq_div_mul] at hleast hmost
  generalize num / den = q at *
  have hpos : 0 < Nat.pow 2 (q.log2 - 52) := Nat.two_pow_pos _
  constructor
  · have hscale : 2 ^ (q.log2 + 1) ≤ 2 * leadingBit * Nat.pow 2 (q.log2 - 52) := by
      rw [show 2 * leadingBit = 2 ^ 53 from rfl, Nat.pow_eq, ← Nat.pow_add]
      exact Nat.pow_le_pow_right (by decide) (by omega)
    have hlt : q / Nat.pow 2 (q.log2 - 52) < 2 * leadingBit :=
      (Nat.div_lt_iff_lt_mul hpos).2 (Nat.lt_of_lt_of_le Nat.lt_log2_self hscale)
    omega
  · intro hlog
    have hne : q ≠ 0 := fun h => by
      rw [h] at hlog
      exact absurd hlog (by decide)
    have hscale : leadingBit * Nat.pow 2 (q.log2 - 52) = 2 ^ q.log2 := by
      rw [show leadingBit = 2 ^ 52 from rfl, Nat.pow_eq, ← Nat.pow_add, Nat.add_sub_cancel' hlog]
    have hle : leadingBit ≤ q / Nat.pow 2 (q.log2 - 52) :=
      (Nat.le_div_iff_mul_le hpos).2 (hscale ▸ Nat.log2_self_le hne)
    omega

theorem log2_mono {m n : Nat} (h : m ≤ n) : m.log2 ≤ n.log2 := by
  by_cases hm : m = 0
  · rw [hm]
    exact Nat.zero_le _
  · exact (Nat.le_log2 (by omega)).2 (Nat.le_trans (Nat.log2_self_le hm) h)

/-- The nearest double does not fall as the fraction grows. A longer quotient is rounded at a
later place, but then it has its leading bit there, and a shorter one has no more. -/
theorem nearestBits_mono {num num' : Nat} (den : Nat) (h : num ≤ num') :
    nearestBits num den ≤ nearestBits num' den := by
  have hscaled : num * unitsPerOne ≤ num' * unitsPerOne := Nat.mul_le_mul_right _ h
  unfold nearestBits
  dsimp only
  generalize num * unitsPerOne = scaled at *
  generalize num' * unitsPerOne = scaled' at *
  have hmost := (roundDiv_log2 scaled den).1
  have hleast := (roundDiv_log2 scaled' den).2
  have hlog := log2_mono (Nat.div_le_div_right (c := den) hscaled)
  refine Nat.le_min.2 ⟨Nat.min_le_left _ _, Nat.le_trans (Nat.min_le_right _ _) ?_⟩
  by_cases hsame : Nat.log2 (scaled / den) - 52 = Nat.log2 (scaled' / den) - 52
  · have hround := roundDiv_mono (den * Nat.pow 2 (Nat.log2 (scaled' / den) - 52)) hscaled
    rw [hsame]
    exact Nat.add_le_add_right hround _
  · have hlead := hleast (by omega)
    generalize hs : Nat.log2 (scaled / den) - 52 = s at *
    generalize hs' : Nat.log2 (scaled' / den) - 52 = s' at *
    unfold leadingBit at *
    omega

theorem nearestBits_le (num den : Nat) : nearestBits num den ≤ infinityBits := Nat.min_le_left _ _

theorem isNegative_withSign (negative : Bool) {a : Nat} (ha : a ≤ infinityBits) :
    isNegative (withSign negative a) = negative := by
  unfold isNegative
  rw [bits_withSign negative ha]
  unfold infinityBits at ha
  unfold signBit
  cases negative with
  | false => exact decide_eq_false (by simp; omega)
  | true => exact decide_eq_true (by simp)

theorem rank_withSign (negative : Bool) {a : Nat} (ha : a ≤ infinityBits) :
    rank (withSign negative a) = signed negative a := by
  unfold rank
  rw [isNegative_withSign negative ha, magnitudeBits_withSign negative ha]

theorem isNumber_withSign (negative : Bool) {a : Nat} (ha : a ≤ infinityBits) :
    isNumber (withSign negative a) = true := by
  unfold isNumber
  rw [magnitudeBits_withSign negative ha]
  exact decide_eq_true ha

end VirtualChannels.Number
