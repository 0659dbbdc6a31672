import VirtualChannels.Proofs.Number.Distances

/-
  Whole numbers as doubles. Below 2^53 a whole number is a double (`isExactly_nearest`), and
  comparing and adding such doubles is comparing and adding the numbers (`IsExactly.rank_le_iff`,
  `IsExactly.add`).
-/

namespace VirtualChannels.Number

/-- Whole numbers below 2^53 are doubles. -/
def exactLimit : Nat := 2 * leadingBit

/-- The double is a whole number. -/
structure IsExactly (x : Float) (i : Int) : Prop where
  finite : isFinite x = true
  value : signedUnits x = i * unitsPerOne

/-! ## Rounding keeps whole numbers -/

/-- The mantissa of a whole number is the number itself, moved up to the leading bit. -/
theorem normalized_whole {n : Nat} (hpos : 0 < n) (h : n < exactLimit) :
    Normalized (n * Nat.pow 2 (52 - n.log2)) (n.log2 - 52) := by
  have hlog : n.log2 < 53 := (Nat.log2_lt (Nat.ne_of_gt hpos)).2 h
  have hmantissa : (n * Nat.pow 2 (52 - n.log2)).log2 = 52 := by
    rw [log2_mul_pow hpos]
    omega
  have hpositive : 0 < n * Nat.pow 2 (52 - n.log2) := Nat.mul_pos hpos (Nat.two_pow_pos _)
  obtain ⟨hleast, hlt⟩ := (Nat.log2_eq_iff (Nat.ne_of_gt hpositive)).1 hmantissa
  exact ⟨hpositive, hlt, by omega, Or.inl hleast⟩

theorem exists_bits_whole {n : Nat} (h : n < exactLimit) :
    ∃ a < infinityBits, unitsOfBits a = n * unitsPerOne := by
  rcases Nat.eq_zero_or_pos n with rfl | hpos
  · exact ⟨0, by decide, (Nat.zero_mul _).symm⟩
  · have hn := normalized_whole hpos h
    have hlog : n.log2 < 53 := (Nat.log2_lt (Nat.ne_of_gt hpos)).2 h
    refine ⟨(n.log2 + 1022) * leadingBit + n * Nat.pow 2 (52 - n.log2), ?_, ?_⟩
    · have hlt := hn.lt
      unfold infinityBits
      unfold leadingBit at *
      omega
    · have hexponent : ((n.log2 : Int) - 52 + 1074).toNat = n.log2 + 1022 := by omega
      have hsum : (n.log2 : Int) - 52 + 1074 = ((n.log2 + 1022 : Nat) : Int) := by omega
      have hdepth : 52 - n.log2 + (n.log2 + 1022) = depth := by
        unfold depth
        omega
      have hpow : Nat.pow 2 (52 - n.log2) * Nat.pow 2 (n.log2 + 1022) = unitsPerOne := by
        unfold unitsPerOne
        rw [← hdepth]
        exact (Nat.pow_add 2 _ _).symm
      rw [unitsOfBits_eq hn (by rw [hsum]; push_cast; rfl), hexponent, Nat.mul_assoc, hpow]

/-- The double nearest to a whole number below 2^53 is the number itself. -/
theorem nearestBits_whole {n : Nat} (h : n < exactLimit) :
    nearestBits n 1 < infinityBits ∧ unitsOfBits (nearestBits n 1) = n * unitsPerOne := by
  obtain ⟨a, ha, hunits⟩ := exists_bits_whole h
  have hbits : nearestBits n 1 = a := by
    rw [← nearestBits_scale n 1 unitsPerOne unitsPerOne_pos, ← hunits, Nat.one_mul]
    exact nearestBits_unitsOfBits ha
  rw [hbits]
  exact ⟨ha, hunits⟩

theorem isExactly_nearest (negative : Bool) {n : Nat} (h : n < exactLimit) :
    IsExactly (nearest negative n 1) (signed negative n) := by
  obtain ⟨hlt, hunits⟩ := nearestBits_whole h
  have hle := Nat.le_of_lt hlt
  unfold nearest
  constructor
  · unfold isFinite
    rw [magnitudeBits_withSign negative hle]
    exact decide_eq_true hlt
  · unfold signedUnits units
    rw [isNegative_withSign negative hle, magnitudeBits_withSign negative hle, hunits, signed_mul]

theorem isExactly_ofInt {i : Int} (h : i.natAbs < exactLimit) : IsExactly (ofInt i) i := by
  have hexact := isExactly_nearest (decide (i < 0)) h
  rwa [signed_natAbs] at hexact

/-! ## Whole numbers in the arithmetic of doubles -/

namespace IsExactly

variable {x y : Float} {i j : Int}

theorem rank_eq (h : IsExactly x i) : rank x = nearestRank (i * unitsPerOne) := by
  rw [← h.value, nearestRank_signedUnits h.finite]

theorem rank_le_iff (h : IsExactly x i) (h' : IsExactly y j) : rank x ≤ rank y ↔ i ≤ j := by
  rw [← signedUnits_le_iff h.finite h'.finite, h.value, h'.value]
  exact Int.mul_le_mul_right (Int.natCast_pos.2 unitsPerOne_pos)

theorem rank_lt_iff (h : IsExactly x i) (h' : IsExactly y j) : rank x < rank y ↔ i < j := by
  rw [← Int.not_le, h'.rank_le_iff h, Int.not_le]

/-- The sum itself may be rounded. -/
theorem rank_add (h : IsExactly x i) (h' : IsExactly y j) :
    rank (x + y) = nearestRank ((i + j) * unitsPerOne) := by
  rw [Number.rank_add h.finite h'.finite, h.value, h'.value, Int.add_mul]

/-- A sum below 2^53 is not rounded. -/
theorem add (h : IsExactly x i) (h' : IsExactly y j) (hlimit : (i + j).natAbs < exactLimit) :
    IsExactly (x + y) (i + j) := by
  obtain ⟨negative, hadd, hsign⟩ := add_eq h.finite h'.finite
  have htotal : signedUnits x + signedUnits y = (i + j) * unitsPerOne := by
    rw [h.value, h'.value, Int.add_mul]
  have hpos : (0 : Int) < unitsPerOne := Int.natCast_pos.2 unitsPerOne_pos
  have hunits : (signedUnits x + signedUnits y).natAbs = (i + j).natAbs * unitsPerOne := by
    rw [htotal, Int.natAbs_mul, Int.natAbs_natCast]
  have hnearest : x + y = nearest negative (i + j).natAbs 1 := by
    rw [hadd, hunits]
    unfold nearest
    rw [← nearestBits_scale (i + j).natAbs 1 unitsPerOne unitsPerOne_pos, Nat.one_mul]
  have hvalue : signed negative (i + j).natAbs = i + j := by
    rw [htotal] at hsign
    generalize i + j = k at hsign ⊢
    rcases Int.lt_trichotomy k 0 with hlt | rfl | hgt
    · have hprod := Int.mul_neg_of_neg_of_pos hlt hpos
      rw [hsign (Int.ne_of_lt hprod), decide_eq_true hprod]
      show -(k.natAbs : Int) = k
      omega
    · exact signed_zero negative
    · have hprod := Int.mul_pos hgt hpos
      rw [hsign (Int.ne_of_gt hprod), decide_eq_false (Int.lt_asymm hprod)]
      show (k.natAbs : Int) = k
      omega
  rw [hnearest]
  have hexact := isExactly_nearest negative hlimit
  rwa [hvalue] at hexact

theorem lesser (h : IsExactly x i) (h' : IsExactly y j) : IsExactly (lesser x y) (min i j) := by
  have hx := isNumber_of_isFinite h.finite
  have hy := isNumber_of_isFinite h'.finite
  rcases lesser_eq hx hy with ⟨heq, hle⟩ | ⟨heq, hle⟩
  · rwa [heq, Int.min_eq_left ((h.rank_le_iff h').1 hle)]
  · rwa [heq, Int.min_eq_right ((h'.rank_le_iff h).1 hle)]

theorem greater (h : IsExactly x i) (h' : IsExactly y j) : IsExactly (greater x y) (max i j) := by
  have hx := isNumber_of_isFinite h.finite
  have hy := isNumber_of_isFinite h'.finite
  rcases greater_eq hx hy with ⟨heq, hle⟩ | ⟨heq, hle⟩
  · rwa [heq, Int.max_eq_left ((h'.rank_le_iff h).1 hle)]
  · rwa [heq, Int.max_eq_right ((h.rank_le_iff h').1 hle)]

theorem isWhole (h : IsExactly x i) : isWhole x = true := by
  have hunits : units x = i.natAbs * unitsPerOne := by
    rw [← natAbs_signed (isNegative x) (units x), ← Int.natAbs_natCast unitsPerOne, ← Int.natAbs_mul]
    exact congrArg Int.natAbs h.value
  unfold Number.isWhole
  rw [h.finite, hunits, Nat.mul_mod_left]
  rfl

theorem signed_wholeUnits (h : IsExactly x i) : signed (isNegative x) (wholeUnits x) = i := by
  have hwhole : units x = wholeUnits x * unitsPerOne := by
    have hmod : units x % unitsPerOne = 0 := of_decide_eq_true (Bool.and_eq_true_iff.1 h.isWhole).2
    exact (Nat.div_mul_cancel (Nat.dvd_of_mod_eq_zero hmod)).symm
  have hvalue : signed (isNegative x) (wholeUnits x) * unitsPerOne = i * unitsPerOne := by
    rw [signed_mul, ← hwhole]
    exact h.value
  exact Int.eq_of_mul_eq_mul_right (Int.natCast_pos.2 unitsPerOne_pos).ne' hvalue

end IsExactly

end VirtualChannels.Number
