import Mathlib.Algebra.Order.Field.Rat
import Mathlib.Tactic.Linarith
import VirtualChannels.Proofs.Number.Rationals

/-
  Rounding to the nearest double. In units of 2^-1074 the magnitudes of a binade are the
  multiples of a power of two (`exists_unitsOfBits_eq`), so the multiple that the rounded
  quotient names is the nearest of them, and those below the binade are no nearer than its least
  one (`distance_unboundedBits`). What is beyond infinity is cut off to it
  (`isNearestBits_nearestBits`). The nearest double to a number (`IsNearestTo`) has one value
  (`IsNearestTo.toRat_eq`).
-/

namespace VirtualChannels.Number

/-! ## Rounding a quotient -/

/-- Where the multiples of a whole number lie, next to the quotient and beyond it. -/
theorem mul_cases (num den k : Nat) :
    (k < num / den ∧ k * den + den ≤ den * (num / den)) ∨
    (k = num / den ∧ k * den = den * (num / den)) ∨
    (k = num / den + 1 ∧ k * den = den * (num / den) + den) ∨
    (num / den + 1 < k ∧ den * (num / den) + 2 * den ≤ k * den) := by
  generalize num / den = q
  rw [Nat.mul_comm den q]
  rcases Nat.lt_trichotomy k q with hlt | rfl | hgt
  · have hle : (k + 1) * den ≤ q * den := Nat.mul_le_mul_right den hlt
    rw [Nat.succ_mul] at hle
    exact Or.inl ⟨hlt, hle⟩
  · exact Or.inr (Or.inl ⟨rfl, rfl⟩)
  · rcases Nat.eq_or_lt_of_le hgt with rfl | hgt
    · exact Or.inr (Or.inr (Or.inl ⟨rfl, Nat.succ_mul q den⟩))
    · have hle : (q + 2) * den ≤ k * den := Nat.mul_le_mul_right den hgt
      rw [Nat.add_mul] at hle
      exact Or.inr (Or.inr (Or.inr ⟨hgt, hle⟩))

/-- No whole number is nearer to the quotient than the rounded one, and where another one is as near
the rounded one is even. -/
theorem roundDiv_nearest {den : Nat} (hden : 0 < den) (num k : Nat) :
    ((roundDiv num den * den : Nat) - num : Int).natAbs ≤ ((k * den : Nat) - num : Int).natAbs ∧
    (((k * den : Nat) - num : Int).natAbs = ((roundDiv num den * den : Nat) - num : Int).natAbs →
      k ≠ roundDiv num den → roundDiv num den % 2 = 0) := by
  have hsplit := Nat.div_add_mod num den
  have hrest := Nat.mod_lt num hden
  have hk := mul_cases num den k
  have hround := mul_cases num den (roundDiv num den)
  have hvalue : roundDiv num den = if 2 * (num % den) < den then num / den
      else if den < 2 * (num % den) then num / den + 1 else num / den + num / den % 2 := rfl
  generalize roundDiv num den = d at *
  generalize d * den = product at *
  generalize k * den = product' at *
  generalize den * (num / den) = least at *
  split at hvalue
  · omega
  · split at hvalue
    · omega
    · omega

/-! ## The units of a pattern -/

/-- From a binade on, the magnitudes are multiples of what one unit of the mantissa is worth
there. -/
theorem exists_unitsOfBits_eq {b s : Nat} (h : s = 0 ∨ (s + 1) * leadingBit ≤ b) :
    ∃ k, unitsOfBits b = k * Nat.pow 2 s := by
  rcases h with rfl | h
  · exact ⟨unitsOfBits b, (Nat.mul_one _).symm⟩
  · have hle : leadingBit ≤ b := Nat.le_trans (Nat.le_mul_of_pos_left _ (Nat.succ_pos s)) h
    have hexponent : s + 1 ≤ b / leadingBit := (Nat.le_div_iff_mul_le (by decide)).2 h
    have hsum : b / leadingBit - 1 = b / leadingBit - 1 - s + s := by omega
    refine ⟨(leadingBit + b % leadingBit) * Nat.pow 2 (b / leadingBit - 1 - s), ?_⟩
    have hpow : Nat.pow 2 (b / leadingBit - 1) =
        Nat.pow 2 (b / leadingBit - 1 - s) * Nat.pow 2 s := by
      rw [hsum, Nat.add_sub_cancel]
      exact Nat.pow_add 2 _ s
    unfold unitsOfBits
    rw [if_neg (Nat.not_lt.2 hle), hpow, Nat.mul_assoc]

/-- Below a binade the magnitudes are less than its least one. -/
theorem unitsOfBits_lt_binade {b s : Nat} (hs : 0 < s) (h : b < (s + 1) * leadingBit) :
    unitsOfBits b < leadingBit * Nat.pow 2 s := by
  have hexponent : b / leadingBit < s + 1 := (Nat.div_lt_iff_lt_mul (by decide)).2 h
  have hscale : leadingBit * Nat.pow 2 s = Nat.pow 2 (52 + s) := (Nat.pow_add 2 52 s).symm
  rw [hscale]
  exact Nat.lt_of_lt_of_le (unitsOfBits_lt_scale b) (Nat.pow_le_pow_right (by decide) (by omega))

/-- A mantissa, which may have carried, at an exponent. -/
theorem unitsOfBits_add {q s : Nat} (hmost : q ≤ 2 * leadingBit) (hleast : s = 0 ∨ leadingBit ≤ q) :
    unitsOfBits (q + s * leadingBit) = q * Nat.pow 2 s := by
  by_cases hsmall : q < leadingBit
  · obtain rfl : s = 0 := by omega
    rw [Nat.zero_mul, Nat.add_zero]
    exact (if_pos hsmall).trans (Nat.mul_one q).symm
  · have hle : ¬ q + s * leadingBit < leadingBit := by omega
    have hquotient : (q + s * leadingBit) / leadingBit = q / leadingBit + s :=
      Nat.add_mul_div_right _ _ (by decide)
    unfold unitsOfBits
    rw [if_neg hle, Nat.add_mul_mod_self_right, hquotient]
    rcases Nat.lt_or_eq_of_le hmost with hlt | rfl
    · have hone : q / leadingBit = 1 := by
        unfold leadingBit at *
        omega
      have hrest : leadingBit + q % leadingBit = q := by
        unfold leadingBit at *
        omega
      rw [hone, hrest, Nat.add_sub_cancel_left]
    · have htwo : 2 * leadingBit / leadingBit = 2 := rfl
      have hrest : 2 * leadingBit % leadingBit = 0 := rfl
      rw [htwo, hrest, Nat.add_zero, show 2 + s - 1 = s + 1 by omega]
      show leadingBit * (Nat.pow 2 s * 2) = 2 * leadingBit * Nat.pow 2 s
      rw [Nat.mul_comm (Nat.pow 2 s), ← Nat.mul_assoc, Nat.mul_comm leadingBit]

/-- Every pattern is a mantissa at an exponent. -/
theorem exists_mantissa (b : Nat) :
    ∃ q s, b = q + s * leadingBit ∧ q < 2 * leadingBit ∧ (s = 0 ∨ leadingBit ≤ q) := by
  refine ⟨b - (b / leadingBit - 1) * leadingBit, b / leadingBit - 1, ?_, ?_, ?_⟩
  all_goals
    unfold leadingBit
    omega

theorem unitsOfBits_strictMono : StrictMono unitsOfBits := by
  refine strictMono_nat_of_lt_succ fun b => ?_
  obtain ⟨q, s, rfl, hlt, hleast⟩ := exists_mantissa b
  rw [Nat.add_right_comm, unitsOfBits_add (Nat.le_of_lt hlt) hleast,
    unitsOfBits_add (by omega) (by omega)]
  exact Nat.mul_lt_mul_of_pos_right (Nat.lt_succ_self q) (Nat.two_pow_pos s)

/-! ## The nearest magnitude -/

/-- How far the magnitude with a pattern is from a fraction, as a numerator over the denominator of
the fraction, in units of 2^-1074. -/
def distance (num den b : Nat) : Nat :=
  ((unitsOfBits b * den : Nat) - (num * unitsPerOne : Nat) : Int).natAbs

/-- No magnitude is nearer to a fraction than this one, where infinity counts as 2^1024, and if
another one is as near then this one has an even pattern. -/
structure IsNearestBits (num den m : Nat) : Prop where
  le : m ≤ infinityBits
  nearest : ∀ b ≤ infinityBits, distance num den m ≤ distance num den b
  even : ∀ b ≤ infinityBits, distance num den b = distance num den m → b ≠ m → m % 2 = 0

/-- The place at which the quotient is rounded leaves it 53 bits, if it has so many. -/
theorem binade_le {n : Nat} (h : n.log2 - 52 ≠ 0) : leadingBit * Nat.pow 2 (n.log2 - 52) ≤ n := by
  have hne : n ≠ 0 := fun hzero => by
    rw [hzero] at h
    exact h (by decide)
  have hscale : leadingBit * Nat.pow 2 (n.log2 - 52) = 2 ^ n.log2 := by
    rw [show leadingBit = 2 ^ 52 from rfl, Nat.pow_eq, ← Nat.pow_add, Nat.add_sub_cancel' (by omega)]
  rw [hscale]
  exact Nat.log2_self_le hne

section

variable {num den : Nat} (hden : 0 < den)

/-- The rounded quotient with its exponent, before it is cut off at infinity. -/
def unboundedBits (num den : Nat) : Nat :=
  let shift := Nat.log2 (num * unitsPerOne / den) - 52
  roundDiv (num * unitsPerOne) (den * Nat.pow 2 shift) + shift * leadingBit

theorem nearestBits_eq_min (num den : Nat) :
    nearestBits num den = min infinityBits (unboundedBits num den) := rfl

include hden

/-- A magnitude is a multiple of the place at which the quotient is rounded, or it is too small. -/
theorem distance_unboundedBits (b : Nat) :
    distance num den (unboundedBits num den) ≤ distance num den b ∧
    (distance num den b = distance num den (unboundedBits num den) → b ≠ unboundedBits num den →
      unboundedBits num den % 2 = 0) := by
  have hplace : 0 < den * Nat.pow 2 (Nat.log2 (num * unitsPerOne / den) - 52) :=
    Nat.mul_pos hden (Nat.two_pow_pos _)
  have hround := roundDiv_nearest hplace (num * unitsPerOne)
  obtain ⟨hmost, hleast⟩ := roundDiv_log2 (num * unitsPerOne) den
  have hbinade : Nat.log2 (num * unitsPerOne / den) - 52 ≠ 0 →
      leadingBit * (den * Nat.pow 2 (Nat.log2 (num * unitsPerOne / den) - 52)) ≤
        num * unitsPerOne := fun h => by
    rw [Nat.mul_left_comm, Nat.mul_comm den]
    exact (Nat.le_div_iff_mul_le hden).1 (binade_le h)
  unfold unboundedBits distance
  dsimp only
  generalize num * unitsPerOne = scaled at *
  generalize hs : Nat.log2 (scaled / den) - 52 = s at *
  generalize roundDiv scaled (den * Nat.pow 2 s) = q at *
  have hunits : unitsOfBits (q + s * leadingBit) * den = q * (den * Nat.pow 2 s) := by
    rw [unitsOfBits_add hmost (by omega), Nat.mul_assoc, Nat.mul_comm den]
  rw [hunits]
  by_cases hgrid : s = 0 ∨ (s + 1) * leadingBit ≤ b
  · obtain ⟨k, hk⟩ := exists_unitsOfBits_eq hgrid
    rw [hk, Nat.mul_assoc, Nat.mul_comm (Nat.pow 2 s)]
    refine ⟨(hround k).1, fun htie hne => ?_⟩
    have hkq : k ≠ q := fun heq => by
      refine hne (unitsOfBits_strictMono.injective ?_)
      rw [hk, heq, unitsOfBits_add hmost (by omega)]
    have heven := (hround k).2 htie hkq
    have hmul : s * leadingBit = 2 * (s * (leadingBit / 2)) := by
      unfold leadingBit
      omega
    omega
  · have hlt : unitsOfBits b * den < leadingBit * (den * Nat.pow 2 s) := by
      rw [Nat.mul_left_comm, Nat.mul_comm]
      exact Nat.mul_lt_mul_of_pos_left (unitsOfBits_lt_binade (by omega) (by omega)) hden
    have hle := hbinade (by omega)
    have hnear := (hround leadingBit).1
    constructor
    · omega
    · intro htie
      omega

/-- Rounding gives the nearest magnitude, a tie going to the even pattern. -/
theorem isNearestBits_nearestBits : IsNearestBits num den (nearestBits num den) := by
  rw [nearestBits_eq_min]
  rcases Nat.le_total (unboundedBits num den) infinityBits with hle | hge
  · rw [Nat.min_eq_right hle]
    exact ⟨hle, fun b _ => (distance_unboundedBits hden b).1,
      fun b _ => (distance_unboundedBits hden b).2⟩
  · rw [Nat.min_eq_left hge]
    refine ⟨Nat.le_refl _, fun b hb => ?_, fun b hb htie hne => by decide⟩
    have hinfinity : distance num den (unboundedBits num den) ≤ distance num den infinityBits :=
      (distance_unboundedBits hden infinityBits).1
    have hnear : distance num den (unboundedBits num den) ≤ distance num den b :=
      (distance_unboundedBits hden b).1
    have hb' : unitsOfBits b * den ≤ unitsOfBits infinityBits * den :=
      Nat.mul_le_mul_right den (unitsOfBits_strictMono.monotone hb)
    have hge' : unitsOfBits infinityBits * den ≤ unitsOfBits (unboundedBits num den) * den :=
      Nat.mul_le_mul_right den (unitsOfBits_strictMono.monotone hge)
    unfold distance at *
    generalize unitsOfBits infinityBits * den = infinite at *
    generalize unitsOfBits (unboundedBits num den) * den = beyond at *
    generalize unitsOfBits b * den = finite at *
    omega

end

/-! ## The nearest double -/

def signedRat (negative : Bool) (v : ℚ) : ℚ := if negative then -v else v

/-- Of all doubles none is nearer to the number than this one, where an infinite one counts as
2^1024 with its sign; and if another one is as near then this one has an even pattern. -/
structure IsNearestTo (v : ℚ) (x : Float) : Prop where
  isNumber : isNumber x = true
  nearest : ∀ y, Number.isNumber y = true → |toRat x - v| ≤ |toRat y - v|
  even : ∀ y, Number.isNumber y = true → |toRat y - v| = |toRat x - v| → toRat y ≠ toRat x →
    magnitudeBits x % 2 = 0

theorem toRat_eq_signedRat (x : Float) :
    toRat x = signedRat (isNegative x) (units x / unitsPerOne) := by
  unfold toRat signedUnits signed signedRat
  split
  · rw [Int.cast_neg, Int.cast_natCast, neg_div]
  · rw [Int.cast_natCast]

theorem abs_signedRat_sub (negative : Bool) (v w : ℚ) :
    |signedRat negative v - signedRat negative w| = |v - w| := by
  cases negative with
  | false => rfl
  | true =>
    show |-v - -w| = |v - w|
    rw [neg_sub_neg, abs_sub_comm]

theorem abs_signedRat_not_sub {v w : ℚ} (hv : 0 ≤ v) (hw : 0 ≤ w) (negative : Bool) :
    |signedRat (!negative) v - signedRat negative w| = v + w := by
  rw [← abs_of_nonneg (add_nonneg hv hw)]
  cases negative with
  | false =>
    show |-v - w| = |v + w|
    rw [← neg_add', abs_neg]
  | true =>
    show |v - -w| = |v + w|
    rw [sub_neg_eq_add]

/-- Numbers with the same sign are the nearest. -/
theorem abs_sub_le_abs_signedRat_sub {v w : ℚ} (hv : 0 ≤ v) (hw : 0 ≤ w) (negative other : Bool) :
    |v - w| ≤ |signedRat negative v - signedRat other w| := by
  by_cases hsign : negative = other
  · rw [hsign, abs_signedRat_sub]
  · rw [Bool.eq_not_of_ne hsign, abs_signedRat_not_sub hv hw]
    exact abs_le.2 ⟨by linarith, by linarith⟩

theorem signedRat_zero (negative : Bool) : signedRat negative 0 = 0 := by
  cases negative with
  | false => rfl
  | true => exact neg_zero

theorem abs_units_sub {num den : Nat} (hden : 0 < den) (b : Nat) :
    |(unitsOfBits b : ℚ) / unitsPerOne - num / den| =
      (distance num den b : ℚ) / (unitsPerOne * den) := by
  have hden' : (0 : ℚ) < den := Nat.cast_pos.2 hden
  rw [div_sub_div _ _ unitsPerOne_rat_pos.ne' hden'.ne', abs_div,
    abs_of_pos (mul_pos unitsPerOne_rat_pos hden')]
  unfold distance
  rw [Nat.cast_natAbs, Int.cast_abs, Int.cast_sub]
  push_cast
  rw [mul_comm (unitsPerOne : ℚ) (num : ℚ)]

theorem units_div_nonneg (b : Nat) : (0 : ℚ) ≤ (unitsOfBits b : ℚ) / unitsPerOne :=
  div_nonneg (Nat.cast_nonneg _) unitsPerOne_rat_pos.le

section

variable {num den m : Nat} (hden : 0 < den)

include hden

/-- The same magnitude with the other sign is as near only if it is zero, since zero is not
nearer. -/
theorem IsNearestBits.units_eq_zero (h : IsNearestBits num den m)
    (htie : (unitsOfBits m : ℚ) / unitsPerOne + num / den =
      |(unitsOfBits m : ℚ) / unitsPerOne - num / den|) : (unitsOfBits m : ℚ) / unitsPerOne = 0 := by
  have hscale : (0 : ℚ) < unitsPerOne * den := mul_pos unitsPerOne_rat_pos (Nat.cast_pos.2 hden)
  have hnum : (0 : ℚ) ≤ (num : ℚ) / den := div_nonneg (Nat.cast_nonneg _) (Nat.cast_nonneg _)
  have hzero : |(unitsOfBits 0 : ℚ) / unitsPerOne - num / den| = num / den := by
    rw [show unitsOfBits 0 = 0 from rfl, Nat.cast_zero, zero_div, zero_sub, abs_neg,
      abs_of_nonneg hnum]
  have hnear : |(unitsOfBits m : ℚ) / unitsPerOne - num / den| ≤
      |(unitsOfBits 0 : ℚ) / unitsPerOne - num / den| := by
    rw [abs_units_sub hden, abs_units_sub hden]
    exact (div_le_div_iff_of_pos_right hscale).2 (Nat.cast_le.2 (h.nearest 0 (Nat.zero_le _)))
  have hvalue := units_div_nonneg m
  linarith

theorem IsNearestBits.isNearestTo (h : IsNearestBits num den m) (negative : Bool) :
    IsNearestTo (signedRat negative (num / den)) (withSign negative m) := by
  have hscale : (0 : ℚ) < unitsPerOne * den := mul_pos unitsPerOne_rat_pos (Nat.cast_pos.2 hden)
  have hnum : (0 : ℚ) ≤ (num : ℚ) / den := div_nonneg (Nat.cast_nonneg _) (Nat.cast_nonneg _)
  have hvalue : toRat (withSign negative m) = signedRat negative (unitsOfBits m / unitsPerOne) := by
    rw [toRat_eq_signedRat, isNegative_withSign negative h.le, units,
      magnitudeBits_withSign negative h.le]
  have hx : |toRat (withSign negative m) - signedRat negative (num / den)| =
      (distance num den m : ℚ) / (unitsPerOne * den) := by
    rw [hvalue, abs_signedRat_sub, abs_units_sub hden]
  have hy (y : Float) : (distance num den (magnitudeBits y) : ℚ) / (unitsPerOne * den) ≤
      |toRat y - signedRat negative (num / den)| := by
    rw [← abs_units_sub hden, toRat_eq_signedRat]
    exact abs_sub_le_abs_signedRat_sub (units_div_nonneg _) hnum _ _
  have hle (y : Float) (hnumber : isNumber y = true) :
      (distance num den m : ℚ) / (unitsPerOne * den) ≤
        (distance num den (magnitudeBits y) : ℚ) / (unitsPerOne * den) :=
    (div_le_div_iff_of_pos_right hscale).2
      (Nat.cast_le.2 (h.nearest _ (of_decide_eq_true hnumber)))
  refine ⟨isNumber_withSign negative h.le, fun y hnumber => ?_, fun y hnumber htie hne => ?_⟩
  · rw [hx]
    exact (hle y hnumber).trans (hy y)
  · rw [hx] at htie
    rw [magnitudeBits_withSign negative h.le]
    have hge := hy y
    rw [htie] at hge
    have hdistance : distance num den (magnitudeBits y) = distance num den m :=
      Nat.cast_injective ((div_left_inj' hscale.ne').1 (hge.antisymm (hle y hnumber)))
    refine h.even _ (of_decide_eq_true hnumber) hdistance fun hsame => hne ?_
    rw [hvalue, toRat_eq_signedRat, units, hsame]
    by_cases hsign : isNegative y = negative
    · rw [hsign]
    · rw [toRat_eq_signedRat, units, hsame, Bool.eq_not_of_ne hsign,
        abs_signedRat_not_sub (units_div_nonneg m) hnum, ← abs_units_sub hden] at htie
      rw [h.units_eq_zero hden htie, signedRat_zero, signedRat_zero]

end

/-! ## There is one nearest value -/

/-- Numbers with signs are in the order of their magnitudes with these signs. -/
theorem signed_lt_signed_iff {f : Nat → Nat} (hf : StrictMono f) (hzero : f 0 = 0)
    (negative other : Bool) (a b : Nat) :
    signed negative (f a) < signed other (f b) ↔ signed negative a < signed other b := by
  have hpos (n : Nat) : 0 < f n ↔ 0 < n := by
    have hlt := hf.lt_iff_lt (a := 0) (b := n)
    rwa [hzero] at hlt
  have ha := hpos a
  have hb := hpos b
  cases negative with
  | false =>
    cases other with
    | false => exact Int.ofNat_lt.trans (hf.lt_iff_lt.trans Int.ofNat_lt.symm)
    | true =>
      show (f a : Int) < -(f b : Int) ↔ (a : Int) < -(b : Int)
      omega
  | true =>
    cases other with
    | false =>
      show -(f a : Int) < (f b : Int) ↔ -(a : Int) < (b : Int)
      omega
    | true =>
      show -(f a : Int) < -(f b : Int) ↔ -(a : Int) < -(b : Int)
      rw [Int.neg_lt_neg_iff, Int.neg_lt_neg_iff]
      exact Int.ofNat_lt.trans (hf.lt_iff_lt.trans Int.ofNat_lt.symm)

theorem toRat_lt_iff_rank_lt (x y : Float) : toRat x < toRat y ↔ rank x < rank y := by
  unfold toRat
  rw [div_lt_div_iff_of_pos_right unitsPerOne_rat_pos, Int.cast_lt]
  exact signed_lt_signed_iff unitsOfBits_strictMono rfl _ _ _ _

/-- Between two numbers with even patterns lies another one. -/
theorem exists_between {x y : Float} (hx : isNumber x = true) (hy : isNumber y = true)
    (hx' : magnitudeBits x % 2 = 0) (hy' : magnitudeBits y % 2 = 0) (h : toRat x < toRat y) :
    ∃ z, isNumber z = true ∧ toRat x < toRat z ∧ toRat z < toRat y := by
  have hrank := (toRat_lt_iff_rank_lt x y).1 h
  have hle : magnitudeBits x ≤ infinityBits := of_decide_eq_true hx
  have hle' : magnitudeBits y ≤ infinityBits := of_decide_eq_true hy
  have hrank' : rank x = signed (isNegative x) (magnitudeBits x) := rfl
  have hrank'' : rank y = signed (isNegative y) (magnitudeBits y) := rfl
  unfold signed at hrank' hrank''
  have hbounds : (rank x + 1).natAbs ≤ infinityBits ∧ rank x + 1 < rank y := by
    split at hrank'
    · split at hrank''
      · omega
      · omega
    · split at hrank''
      · omega
      · omega
  have hz : rank (withSign (decide (rank x + 1 < 0)) (rank x + 1).natAbs) = rank x + 1 :=
    (rank_withSign _ hbounds.1).trans (signed_natAbs _)
  refine ⟨withSign (decide (rank x + 1 < 0)) (rank x + 1).natAbs,
    isNumber_withSign _ hbounds.1, (toRat_lt_iff_rank_lt _ _).2 ?_, (toRat_lt_iff_rank_lt _ _).2 ?_⟩
  · rw [hz]
    exact Int.lt_succ_self _
  · rw [hz]
    exact hbounds.2

theorem abs_sub_lt_of_between {u v w z : ℚ} (htie : |w - v| = |u - v|) (hbelow : u < z)
    (habove : z < w) : |z - v| < |u - v| := by
  have hmiddle : w - v = -(u - v) := by
    rcases abs_eq_abs.1 htie with heq | heq
    · linarith
    · exact heq
  rw [abs_of_neg (show u - v < 0 by linarith)]
  exact abs_lt.2 ⟨by linarith, by linarith⟩

/-- The nearest double has one value, so it is determined but for the sign of a zero. -/
theorem IsNearestTo.toRat_eq {v : ℚ} {x y : Float} (hx : IsNearestTo v x) (hy : IsNearestTo v y) :
    toRat x = toRat y := by
  have hequal : |toRat y - v| = |toRat x - v| :=
    (hy.nearest x hx.isNumber).antisymm (hx.nearest y hy.isNumber)
  have hle {x y : Float} (hx : IsNearestTo v x) (hy : IsNearestTo v y)
      (hequal : |toRat y - v| = |toRat x - v|) : ¬ toRat x < toRat y := by
    intro hlt
    obtain ⟨z, hz, hbelow, habove⟩ := exists_between hx.isNumber hy.isNumber
      (hx.even y hy.isNumber hequal hlt.ne') (hy.even x hx.isNumber hequal.symm hlt.ne) hlt
    exact absurd (abs_sub_lt_of_between hequal hbelow habove) (hx.nearest z hz).not_gt
  rcases lt_trichotomy (toRat x) (toRat y) with hlt | heq | hgt
  · exact absurd hlt (hle hx hy hequal)
  · exact heq
  · exact absurd hgt (hle hy hx hequal.symm)

end VirtualChannels.Number
