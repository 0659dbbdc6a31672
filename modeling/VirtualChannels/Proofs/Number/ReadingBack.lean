import VirtualChannels.Number.Decimal
import VirtualChannels.Proofs.Number.Bits

/-
  The shortest decimal of a magnitude reads back as that magnitude (`magnitude_shortest`). A
  candidate is taken only if it does, zeros at the end of the digits do not count, and the exact
  decimal reads back since rounding keeps what is a double already.
-/

namespace VirtualChannels

/-! ## Rounding what is a double already -/

namespace Number

theorem unitsOfBits_lt_scale (b : Nat) :
    unitsOfBits b < Nat.pow 2 (53 + (b / leadingBit - 1)) := by
  have hfraction : b % leadingBit < leadingBit := Nat.mod_lt _ (by decide)
  have hsum : Nat.pow 2 (53 + (b / leadingBit - 1))
      = 2 * leadingBit * Nat.pow 2 (b / leadingBit - 1) := Nat.pow_add 2 53 _
  have hpos : 0 < Nat.pow 2 (b / leadingBit - 1) := Nat.two_pow_pos _
  unfold unitsOfBits
  rw [hsum]
  split
  · rename_i hb
    calc b < 2 * leadingBit := by omega
      _ ≤ 2 * leadingBit * Nat.pow 2 (b / leadingBit - 1) := Nat.le_mul_of_pos_right _ hpos
  · exact Nat.mul_lt_mul_of_pos_right (by omega) hpos

/-- The finite values lie below 2^1024, in units of 2^-1074. -/
theorem unitsOfBits_lt {b : Nat} (h : b < infinityBits) :
    unitsOfBits b < Nat.pow 2 (depth + 1024) := by
  have hscale : 53 + (b / leadingBit - 1) ≤ depth + 1024 := by
    unfold infinityBits at h
    unfold leadingBit depth
    omega
  generalize depth + 1024 = most at hscale ⊢
  exact Nat.lt_of_lt_of_le (unitsOfBits_lt_scale b) (Nat.pow_le_pow_right (by decide) hscale)

theorem unitsOfBits_pos {b : Nat} (h : 0 < b) : 0 < unitsOfBits b := by
  unfold unitsOfBits
  split
  · exact h
  · exact Nat.mul_pos (Nat.add_pos_left (by decide) _) (Nat.two_pow_pos _)

theorem log2_unitsOfBits {b : Nat} (h : leadingBit ≤ b) :
    Nat.log2 (unitsOfBits b) = 52 + (b / leadingBit - 1) := by
  have hpos := unitsOfBits_pos (Nat.lt_of_lt_of_le (by decide) h)
  refine (Nat.log2_eq_iff (Nat.ne_of_gt hpos)).2 ⟨?_, ?_⟩
  · unfold unitsOfBits
    rw [if_neg (Nat.not_lt.2 h), Nat.pow_add]
    exact Nat.mul_le_mul_right _ (Nat.le_add_right leadingBit _)
  · rw [Nat.add_right_comm]
    exact unitsOfBits_lt_scale b

/-- Rounding to 53 bits keeps a pattern: the fraction is rounded where it ends already. -/
theorem roundDiv_unitsOfBits (b : Nat) :
    roundDiv (unitsOfBits b) (Nat.pow 2 (Nat.log2 (unitsOfBits b) - 52))
      + (Nat.log2 (unitsOfBits b) - 52) * leadingBit = b := by
  by_cases hb : b < leadingBit
  · have hunits : unitsOfBits b = b := if_pos hb
    have hlog : Nat.log2 b - 52 = 0 := by
      by_cases hzero : b = 0
      · rw [hzero]
        decide
      · have := (Nat.log2_lt hzero).2 (show b < 2 ^ 52 from hb)
        omega
    have hexact := roundDiv_of_dvd b 1 (by decide)
    rw [Nat.mul_one] at hexact
    rw [hunits, hlog, Nat.zero_mul, Nat.add_zero]
    exact hexact
  · have hle := Nat.not_lt.1 hb
    have hpos : 0 < b / leadingBit := Nat.div_pos hle (by decide)
    have hexact := roundDiv_of_dvd (leadingBit + b % leadingBit)
      (Nat.pow 2 (b / leadingBit - 1)) (Nat.two_pow_pos _)
    rw [log2_unitsOfBits hle, Nat.add_sub_cancel_left]
    unfold unitsOfBits
    rw [if_neg hb, hexact]
    have hsplit := Nat.div_add_mod b leadingBit
    generalize b / leadingBit = k at *
    obtain ⟨j, rfl⟩ := Nat.exists_eq_add_of_lt hpos
    rw [Nat.zero_add, Nat.add_sub_cancel]
    rw [Nat.zero_add, Nat.mul_add, Nat.mul_one, Nat.mul_comm] at hsplit
    omega

/-- A double is the nearest one to itself. -/
theorem nearestBits_unitsOfBits {b : Nat} (h : b < infinityBits) :
    nearestBits (unitsOfBits b) unitsPerOne = b := by
  have hround (k : Nat) : roundDiv (unitsOfBits b * unitsPerOne) (unitsPerOne * k)
      = roundDiv (unitsOfBits b) k := by
    rw [Nat.mul_comm unitsPerOne, roundDiv_scale _ _ _ unitsPerOne_pos]
  unfold nearestBits
  dsimp only
  rw [Nat.mul_div_cancel _ unitsPerOne_pos, hround, roundDiv_unitsOfBits]
  exact Nat.min_eq_right (Nat.le_of_lt h)

end Number

/-! ## The magnitude of a decimal -/

namespace Decimal

theorem lt_pow_digitCount (n : Nat) : n < Nat.pow 10 (digitCount n) := by
  fun_induction digitCount n with
  | case1 n h => exact h
  | case2 n h ih =>
    have hpow : Nat.pow 10 (digitCount (n / 10) + 1) = Nat.pow 10 (digitCount (n / 10)) * 10 :=
      rfl
    omega

theorem digitCount_le {n k : Nat} (hk : 0 < k) (h : n < Nat.pow 10 k) : digitCount n ≤ k := by
  fun_induction digitCount n generalizing k with
  | case1 n hn => exact hk
  | case2 n hn ih =>
    obtain ⟨j, rfl⟩ := Nat.exists_eq_add_of_lt hk
    rw [Nat.zero_add] at h ⊢
    have hpow : Nat.pow 10 (j + 1) = Nat.pow 10 j * 10 := rfl
    have hj : 0 < j := by
      cases j with
      | zero => exact absurd h hn
      | succ j => exact Nat.succ_pos j
    exact Nat.succ_le_succ (ih hj (by omega))

theorem lt_digitCount {n k : Nat} (h : Nat.pow 10 k ≤ n) : k < digitCount n :=
  (Nat.pow_lt_pow_iff_right (by decide)).1 (Nat.lt_of_le_of_lt h (lt_pow_digitCount n))

theorem digitCount_mul_ten {n : Nat} (h : n ≠ 0) : digitCount (n * 10) = digitCount n + 1 := by
  rw [digitCount.eq_1 (n * 10), if_neg (by omega), Nat.mul_div_cancel _ (by decide)]

/-- The fraction of a decimal without its sign. -/
def fraction (d : Decimal) : Nat × Nat :=
  match d.exponent with
  | .ofNat e => (d.digits * Nat.pow 10 e, 1)
  | .negSucc e => (d.digits, Nat.pow 10 (e + 1))

/-- The magnitude of the nearest double. -/
def magnitude (d : Decimal) : Nat :=
  if d.digits = 0 then 0
  else
    let point : Int := digitCount d.digits + d.exponent
    if 309 < point then Number.infinityBits
    else if point < -323 then 0
    else Number.nearestBits d.fraction.1 d.fraction.2

theorem toFloat_eq (d : Decimal) : d.toFloat = Number.withSign d.negative d.magnitude := by
  obtain ⟨negative, digits, exponent⟩ := d
  unfold toFloat magnitude fraction
  dsimp only
  split
  · rfl
  · split
    · rfl
    · split
      · rfl
      · cases exponent <;> rfl

/-- Between the places where it is cut off the magnitude is the nearest one to the fraction. -/
theorem magnitude_eq_nearest {d : Decimal} (hd : d.digits ≠ 0)
    (hleast : -323 ≤ (digitCount d.digits : Int) + d.exponent)
    (hmost : (digitCount d.digits : Int) + d.exponent ≤ 309) :
    d.magnitude = Number.nearestBits d.fraction.1 d.fraction.2 := by
  unfold magnitude
  dsimp only
  rw [if_neg hd, if_neg (by omega), if_neg (by omega)]

theorem fraction_neg (negative : Bool) (digits : Nat) {n : Nat} (hn : 0 < n) :
    fraction ⟨negative, digits, -n⟩ = (digits, Nat.pow 10 n) := by
  cases n with
  | zero => cases hn
  | succ n => rfl

theorem magnitude_le (d : Decimal) : d.magnitude ≤ Number.infinityBits := by
  unfold magnitude
  dsimp only
  split
  · exact Nat.zero_le _
  · split
    · exact Nat.le_refl _
    · split
      · exact Nat.zero_le _
      · exact Nat.min_le_left _ _

theorem magnitudeBits_toFloat (d : Decimal) : Number.magnitudeBits d.toFloat = d.magnitude := by
  rw [toFloat_eq, Number.magnitudeBits_withSign _ d.magnitude_le]

/-- A zero at the end of the digits is a power of ten. -/
theorem magnitude_mul_ten (negative : Bool) (digits : Nat) (exponent : Int) :
    magnitude ⟨negative, digits * 10, exponent⟩ = magnitude ⟨negative, digits, exponent + 1⟩ := by
  unfold magnitude
  by_cases h : digits = 0
  · rw [if_pos (by rw [h]), if_pos h]
  · have hpoint : ((digitCount (digits * 10) : Nat) : Int) + exponent
        = digitCount digits + (exponent + 1) := by
      rw [digitCount_mul_ten h]
      omega
    have hfraction : Number.nearestBits (fraction ⟨negative, digits * 10, exponent⟩).1
          (fraction ⟨negative, digits * 10, exponent⟩).2
        = Number.nearestBits (fraction ⟨negative, digits, exponent + 1⟩).1
          (fraction ⟨negative, digits, exponent + 1⟩).2 := by
      match exponent with
      | .ofNat e =>
        show Number.nearestBits (digits * 10 * Nat.pow 10 e) 1
          = Number.nearestBits (digits * (Nat.pow 10 e * 10)) 1
        rw [Nat.mul_assoc, Nat.mul_comm 10]
      | .negSucc 0 =>
        show Number.nearestBits (digits * 10) (1 * 10) = Number.nearestBits (digits * 1) 1
        rw [Number.nearestBits_scale _ _ _ (by decide), Nat.mul_one]
      | .negSucc (e + 1) =>
        show Number.nearestBits (digits * 10) (Nat.pow 10 (e + 1) * 10)
          = Number.nearestBits digits (Nat.pow 10 (e + 1))
        exact Number.nearestBits_scale _ _ _ (by decide)
    dsimp only
    rw [if_neg (by omega), if_neg h, hpoint, hfraction]

theorem magnitude_mul_pow (negative : Bool) (digits e : Nat) :
    magnitude ⟨negative, digits * Nat.pow 10 e, 0⟩ = magnitude ⟨negative, digits, e⟩ := by
  have h (n : Nat) (i : Int) :
      magnitude ⟨negative, n * Nat.pow 10 e, i⟩ = magnitude ⟨negative, n, i + e⟩ := by
    induction e generalizing i with
    | zero =>
      show magnitude ⟨negative, n * 1, i⟩ = magnitude ⟨negative, n, i + 0⟩
      rw [Nat.mul_one, Int.add_zero]
    | succ e ih =>
      show magnitude ⟨negative, n * (Nat.pow 10 e * 10), i⟩ = _
      rw [← Nat.mul_assoc, magnitude_mul_ten, ih, Int.add_assoc, Int.add_comm 1]
      rfl
  rw [h, Int.zero_add]

end Decimal

/-! ## The shortest decimal -/

namespace Number

theorem magnitude_of_readsBack {magnitude : Nat} {d : Decimal} (h : readsBack magnitude d = true) :
    d.magnitude = magnitude := by
  rw [← Decimal.magnitudeBits_toFloat]
  exact eq_of_beq h

theorem readsBack_of_either {magnitude : Nat} {nearer farther d : Decimal}
    (h : (if readsBack magnitude nearer then some nearer
      else if readsBack magnitude farther then some farther else none) = some d) :
    readsBack magnitude d = true := by
  split at h
  · rename_i hback
    cases h
    exact hback
  · split at h
    · rename_i hback
      cases h
      exact hback
    · cases h

theorem readsBack_of_candidate {magnitude digits : Nat} {d : Decimal}
    (h : candidate magnitude digits = some d) : readsBack magnitude d = true :=
  readsBack_of_either h

theorem magnitude_stripZeros (d : Decimal) : (stripZeros d).magnitude = d.magnitude := by
  fun_induction stripZeros d with
  | case1 d h ih =>
    rw [ih, ← Decimal.magnitude_mul_ten, Nat.div_mul_cancel (Nat.dvd_of_mod_eq_zero h.2)]
  | case2 d h => rfl

/-- The exact digits are as many as keep the point where it is not cut off. -/
theorem digitCount_exactDecimal {m : Nat} (hpos : 0 < m) (h : m < infinityBits) :
    750 < Decimal.digitCount (exactDecimal m).digits ∧
      Decimal.digitCount (exactDecimal m).digits ≤ 309 + depth := by
  have hfive : ∀ n, 0 < Nat.pow 5 n := fun n => Nat.pow_pos (by decide)
  obtain ⟨least, hleast, hbottom⟩ : ∃ k, 750 ≤ k ∧ Nat.pow 10 k ≤ Nat.pow 5 depth :=
    ⟨750, Nat.le_refl _, by decide +kernel⟩
  have htop : Nat.pow 2 (depth + 1024) * Nat.pow 5 depth ≤ Nat.pow 10 (309 + depth) := by
    decide +kernel
  unfold exactDecimal
  constructor
  · refine Nat.lt_of_le_of_lt hleast (Decimal.lt_digitCount (Nat.le_trans hbottom ?_))
    exact Nat.le_mul_of_pos_left _ (unitsOfBits_pos hpos)
  · refine Decimal.digitCount_le (by decide) (Nat.lt_of_lt_of_le ?_ htop)
    exact Nat.mul_lt_mul_of_pos_right (unitsOfBits_lt h) (hfive depth)

theorem magnitude_exactDecimal {m : Nat} (hpos : 0 < m) (h : m < infinityBits) :
    (exactDecimal m).magnitude = m := by
  have hfive : ∀ n, 0 < Nat.pow 5 n := fun n => Nat.pow_pos (by decide)
  have hten : Nat.pow 10 depth = unitsPerOne * Nat.pow 5 depth := by decide +kernel
  have hexponent : (exactDecimal m).exponent = -1074 := rfl
  obtain ⟨hleast, hmost⟩ := digitCount_exactDecimal hpos h
  rw [Decimal.magnitude_eq_nearest]
  · unfold exactDecimal
    rw [Decimal.fraction_neg _ _ (by decide)]
    dsimp only
    rw [hten, nearestBits_scale _ _ _ (hfive depth), nearestBits_unitsOfBits h]
  · exact Nat.ne_of_gt (Nat.mul_pos (unitsOfBits_pos hpos) (hfive depth))
  · omega
  · have hdepth : depth = 1074 := rfl
    omega

/-- The shortest decimal of a magnitude reads back as the magnitude. -/
theorem magnitude_shortest {m : Nat} (hpos : 0 < m) (h : m < infinityBits) :
    (shortest m).magnitude = m := by
  unfold shortest
  rw [magnitude_stripZeros]
  cases hc : (List.range 17).findSome? fun n => candidate m (n + 1) with
  | none => exact magnitude_exactDecimal hpos h
  | some d =>
    obtain ⟨n, -, hn⟩ := List.exists_of_findSome?_eq_some hc
    exact magnitude_of_readsBack (readsBack_of_candidate hn)

end Number

end VirtualChannels
