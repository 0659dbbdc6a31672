import VirtualChannels.Proofs.Number.Order

/-
  Sums of doubles. The sum of two finite doubles is the double nearest to the sum of their values
  (`add_eq`): the mantissas are added at the lesser of the two exponents, and rounding the sum to
  53 bits is rounding its units. So adding what is not above zero leads no higher
  (`rank_add_le`).
-/

namespace VirtualChannels.Number

open Float.Model (Format UnpackedFloat totalExponent)
open Float.Model.UnpackedFloat

/-! ## Packing -/

theorem toNat_packComponents (negative : Bool) (e : BitVec 11) (m : BitVec 52) :
    (packComponents Format.binary64 (signOf negative) e m).toNat
      = (if negative then signBit else 0) + (e.toNat * leadingBit + m.toNat) := by
  have hm : m.toNat < leadingBit := m.isLt
  have he : e.toNat < 2048 := e.isLt
  have hs : (signOf negative).toBitVec.toNat = if negative then 1 else 0 := by
    cases negative <;> rfl
  unfold packComponents
  rw [BitVec.toNat_append, BitVec.toNat_append, ← Nat.shiftLeft_add_eq_or_of_lt m.isLt,
    ← Nat.shiftLeft_add_eq_or_of_lt e.isLt, Nat.shiftLeft_eq, Nat.shiftLeft_eq, hs]
  show ((if negative = true then 1 else 0) * 2048 + e.toNat) * 0x10000000000000 + m.toNat = _
  unfold signBit leadingBit
  split <;> omega

theorem ofModel_pack {negative : Bool} {a : Nat} {u : UnpackedFloat} (ha : a ≤ infinityBits)
    (h : (pack Format.binary64 u).toNat = (if negative then signBit else 0) + a) :
    Float.ofModel (Float.Model.pack u) = withSign negative a := by
  have hbits := bits_withSign negative ha
  have hsame : (Float.ofModel (Float.Model.pack u)).toBits = (withSign negative a).toBits :=
    UInt64.toNat_inj.1 (h.trans hbits.symm)
  rw [← ofBits_toBits (Float.ofModel (Float.Model.pack u)), hsame, ofBits_toBits]

/-- A mantissa whose exponent is too great is packed as infinity. -/
theorem ofModel_pack_normalized (negative : Bool) {m : Nat} {e : Int} (hm : 0 < m)
    (h : Normalized m e) :
    Float.ofModel (Float.Model.pack (.finite (signOf negative) m e hm)) =
      withSign negative (min infinityBits ((e + 1074).toNat * leadingBit + m)) := by
  obtain ⟨-, hlt, hleast, hnormal⟩ := h
  have hexponent : (e + Format.binary64.exponentBias + (52 : Nat)).toNat
      = (e + 1074).toNat + 1 := by
    show (e + (1023 : Nat) + (52 : Nat)).toNat = _
    omega
  have hbits : Format.binary64.mantissaBits = 53 := rfl
  refine ofModel_pack (Nat.min_le_left _ _) ?_
  unfold pack
  dsimp only
  rw [hexponent, hbits]
  by_cases htop : 2 ^ 11 ≤ (e + 1074).toNat + 1 + 1
  · have hover : infinityBits ≤ (e + 1074).toNat * leadingBit + m := by
      unfold infinityBits
      unfold leadingBit at *
      omega
    rw [if_pos htop, Nat.min_eq_left hover]
    exact toNat_packComponents negative _ _
  · have hfits : (e + 1074).toNat * leadingBit + m ≤ infinityBits := by
      unfold infinityBits
      unfold leadingBit at *
      omega
    rw [if_neg htop, Nat.min_eq_right hfits]
    by_cases hlead : leadingBit ≤ m
    · have hlog : m.log2 = 52 := (Nat.log2_eq_iff (by omega)).2 ⟨hlead, hlt⟩
      have hmantissa : m % 2 ^ 52 = m - leadingBit := by
        unfold leadingBit at *
        omega
      have hexponent' : ((e + 1074).toNat + 1) % 2 ^ 11 = (e + 1074).toNat + 1 := by omega
      rw [hlog, if_pos rfl, toNat_packComponents, BitVec.toNat_ofNat, BitVec.toNat_ofNat,
        hmantissa, hexponent']
      unfold leadingBit at *
      omega
    · have hlt' : m < 2 ^ 52 := Nat.not_le.1 hlead
      have hlog : m.log2 < 52 := (Nat.log2_lt (Nat.ne_of_gt hm)).2 hlt'
      have he : e = -1074 := hnormal.resolve_left hlead
      rw [if_neg (by omega), toNat_packComponents, BitVec.toNat_ofNat, BitVec.toNat_ofNat,
        Nat.mod_eq_of_lt hlt', he]
      rfl

theorem ofModel_pack_finite {negative : Bool} {a m : Nat} {e : Int} (hm : 0 < m)
    (hn : Normalized m e) (ha : a < infinityBits) (h : (a : Int) = (e + 1074) * leadingBit + m) :
    Float.ofModel (Float.Model.pack (.finite (signOf negative) m e hm)) = withSign negative a := by
  have hleast := hn.least
  have hsame : (e + 1074).toNat * leadingBit + m = a := by
    unfold leadingBit at h ⊢
    omega
  rw [ofModel_pack_normalized negative hm hn, hsame, Nat.min_eq_right (Nat.le_of_lt ha)]

theorem ofModel_pack_zero (s : Sign) :
    ∃ negative, Float.ofModel (Float.Model.pack (.zero s)) = withSign negative 0 := by
  cases s with
  | positive => exact ⟨false, rfl⟩
  | negative => exact ⟨true, rfl⟩

/-! ## Bits that are shifted out -/

/-- A mantissa with its two further bits tells of a fraction what rounding has to know: its whole
part, and where the rest lies with regard to a half. -/
structure Represents (em : ExtendedMantissa) (num den : Nat) : Prop where
  mantissa : em.mantissa = num / den
  round : em.roundBit = true ↔ den ≤ 2 * (num % den)
  sticky : em.stickyBit = true ↔ num % den ≠ 0 ∧ 2 * (num % den) ≠ den

namespace Represents

variable {em : ExtendedMantissa} {num den : Nat}

theorem exact (m : Nat) : Represents ⟨m, false, false⟩ m 1 := by
  constructor
  · exact (Nat.div_one m).symm
  · simp [Nat.mod_one]
  · simp [Nat.mod_one]

theorem shiftRightOne (hd : 0 < den) (h : Represents em num den) :
    Represents em.shiftRightOne num (den * 2) := by
  have hlt : num % den < den := Nat.mod_lt _ hd
  have hmod : num % (den * 2) = num % den + den * (num / den % 2) := Nat.mod_mul
  have hbit : num / den % 2 = 0 ∨ num / den % 2 = 1 := by omega
  obtain ⟨hm, hr, hs⟩ := h
  constructor
  · show em.mantissa / 2 = _
    rw [hm, Nat.div_div_eq_div_mul]
  · show (em.mantissa % 2 != 0) = true ↔ _
    rw [bne_iff_ne, hm, hmod]
    rcases hbit with hb | hb <;> rw [hb] <;> omega
  · show (em.roundBit || em.stickyBit) = true ↔ _
    rw [Bool.or_eq_true, hr, hs, hmod]
    rcases hbit with hb | hb <;> rw [hb] <;> omega

theorem shiftRight (m k : Nat) :
    Represents ((⟨m, false, false⟩ : ExtendedMantissa) >>> k) m (Nat.pow 2 k) := by
  show Represents (Nat.repeat ExtendedMantissa.shiftRightOne k _) m _
  induction k with
  | zero => exact exact m
  | succ k ih => exact ih.shiftRightOne (Nat.two_pow_pos k)

theorem roundedMantissa (hd : 0 < den) (h : Represents em num den) :
    em.roundedMantissa = roundDiv num den := by
  obtain ⟨m, round, sticky⟩ := em
  obtain ⟨hm, hr, hs⟩ := h
  have hlt : num % den < den := Nat.mod_lt _ hd
  dsimp only at hm hr hs
  unfold roundDiv
  dsimp only
  rw [← hm]
  cases round with
  | false =>
    have hbelow : 2 * (num % den) < den := Nat.not_le.1 fun h => Bool.false_ne_true (hr.2 h)
    rw [if_pos hbelow]
    cases sticky <;> rfl
  | true =>
    have hleast : den ≤ 2 * (num % den) := hr.1 rfl
    rw [if_neg (Nat.not_lt.2 hleast)]
    cases sticky with
    | false =>
      have htie : ¬ den < 2 * (num % den) := fun hlt =>
        Bool.false_ne_true (hs.2 ⟨by omega, by omega⟩)
      rw [if_neg htie]
      rfl
    | true =>
      have hne := (hs.1 rfl).2
      have habove : den < 2 * (num % den) := by omega
      rw [if_pos habove]
      rfl

end Represents

/-! ## Rounding -/

theorem targetExponent_eq (m : Nat) (e : Int) :
    Format.binary64.targetExponent (totalExponent m e) = max (m.log2 + e - 52) (-1074) := by
  have hbits : (Format.binary64.mantissaBits : Int) = 53 := rfl
  have hleast : Format.binary64.minExponent = -1074 := rfl
  unfold Format.targetExponent totalExponent
  rw [hbits, hleast]
  omega

theorem shiftToTargetExponent_eq {m : Nat} {e : Int} {k : Nat}
    (h : max (m.log2 + e - 52) (-1074) = e + k) :
    shiftToTargetExponent Format.binary64 m e .exact =
      ((⟨m, false, false⟩ : ExtendedMantissa) >>> k, e + k) := by
  have hk : (max (m.log2 + e - 52) (-1074) - e).toNat = k := by omega
  unfold shiftToTargetExponent
  rw [targetExponent_eq]
  unfold shiftToExponent
  dsimp only
  rw [hk]
  rfl

/-- A rounded mantissa that is carried over to 2^53 moves on by a bit, which leaves the pattern as
it is. Any other one stays. -/
theorem shiftToTargetExponent_rounded {m : Nat} {e : Int} (hpos : 0 < m)
    (hmost : m ≤ 2 * leadingBit) (hleast : -1074 ≤ e) (hlead : leadingBit ≤ m ∨ e = -1074) :
    ∃ (em : ExtendedMantissa) (e' : Int),
      shiftToTargetExponent Format.binary64 m e .exact = (em, e') ∧ Normalized em.mantissa e' ∧
      (e' + 1074).toNat * leadingBit + em.mantissa = (e + 1074).toNat * leadingBit + m := by
  by_cases hm : m = 2 * leadingBit
  · have hlog : m.log2 = 53 := by rw [hm]; rfl
    have htarget : max ((m.log2 : Int) + e - 52) (-1074) = e + (1 : Nat) := by omega
    have hmantissa : ((⟨m, false, false⟩ : ExtendedMantissa) >>> 1).mantissa = leadingBit := by
      rw [(Represents.shiftRight m 1).mantissa, hm]
      rfl
    refine ⟨_, _, shiftToTargetExponent_eq htarget, ?_, ?_⟩
    · rw [hmantissa]
      exact ⟨by decide, by decide, by omega, Or.inl (Nat.le_refl _)⟩
    · rw [hmantissa, hm]
      unfold leadingBit
      omega
  · have hlt : m < 2 * leadingBit := Nat.lt_of_le_of_ne hmost hm
    have hlog : m.log2 < 53 := (Nat.log2_lt (Nat.ne_of_gt hpos)).2 hlt
    have hlog' (h : leadingBit ≤ m) : 52 ≤ m.log2 := (Nat.le_log2 (Nat.ne_of_gt hpos)).2 h
    have htarget : max ((m.log2 : Int) + e - 52) (-1074) = e + (0 : Nat) := by omega
    have hexponent : e + (0 : Nat) = e := Int.add_zero e
    refine ⟨_, _, shiftToTargetExponent_eq htarget, ?_, ?_⟩
    · rw [hexponent]
      exact ⟨hpos, hlt, hleast, hlead⟩
    · rw [hexponent]
      rfl

/-- A mantissa is rounded to its first 53 bits. -/
theorem roundWithAccuracy_eq (negative : Bool) {m : Nat} {e : Int} (hm : 0 < m)
    (hleast : -1074 ≤ e) (h : 52 ≤ m.log2 ∨ e = -1074) :
    ∃ (m' : Nat) (e' : Int) (hm' : 0 < m'), Normalized m' e' ∧
      roundWithAccuracy Format.binary64 (signOf negative) m e .exact =
        .finite (signOf negative) m' e' hm' ∧
      (e' + 1074).toNat * leadingBit + m' =
        ((e + 1074).toNat + (m.log2 - 52)) * leadingBit +
          roundDiv m (Nat.pow 2 (m.log2 - 52)) := by
  have htarget : max ((m.log2 : Int) + e - 52) (-1074) = e + (m.log2 - 52 : Nat) := by omega
  have hrounded : ((⟨m, false, false⟩ : ExtendedMantissa) >>> (m.log2 - 52)).roundedMantissa =
      roundDiv m (Nat.pow 2 (m.log2 - 52)) :=
    (Represents.shiftRight m (m.log2 - 52)).roundedMantissa (Nat.two_pow_pos _)
  obtain ⟨hmost, hlead⟩ := roundDiv_log2 m 1
  rw [Nat.div_one, Nat.one_mul] at hmost hlead
  have hpos : 0 < roundDiv m (Nat.pow 2 (m.log2 - 52)) := by
    by_cases hlog : 52 ≤ m.log2
    · exact Nat.lt_of_lt_of_le (by decide) (hlead hlog)
    · have hexact := roundDiv_of_dvd m 1 (by decide)
      rw [Nat.mul_one] at hexact
      rw [Nat.sub_eq_zero_of_le (Nat.le_of_not_le hlog), show Nat.pow 2 0 = 1 from rfl, hexact]
      exact hm
  have hlead' : leadingBit ≤ roundDiv m (Nat.pow 2 (m.log2 - 52)) ∨
      e + (m.log2 - 52 : Nat) = -1074 := by
    by_cases hlog : 52 ≤ m.log2
    · exact Or.inl (hlead hlog)
    · exact Or.inr (by omega)
  obtain ⟨em, e', hsecond, hn, hbits⟩ :=
    shiftToTargetExponent_rounded hpos hmost (by omega) hlead'
  have hexponent : (e + (m.log2 - 52 : Nat) + 1074).toNat = (e + 1074).toNat + (m.log2 - 52) := by
    omega
  unfold roundWithAccuracy
  rw [shiftToTargetExponent_eq htarget]
  dsimp only
  rw [hrounded, hsecond]
  exact ⟨em.mantissa, e', hn.pos, hn, dif_neg (Nat.ne_of_gt hn.pos), by rw [hbits, hexponent]⟩

theorem log2_mul_pow {m : Nat} (hm : 0 < m) (k : Nat) :
    (m * Nat.pow 2 k).log2 = m.log2 + k := by
  have hpos : 0 < Nat.pow 2 k := Nat.two_pow_pos k
  refine (Nat.log2_eq_iff (Nat.ne_of_gt (Nat.mul_pos hm hpos))).2 ⟨?_, ?_⟩
  · rw [Nat.pow_add]
    exact Nat.mul_le_mul_right _ (Nat.log2_self_le (Nat.ne_of_gt hm))
  · rw [Nat.add_right_comm, Nat.pow_add]
    exact Nat.mul_lt_mul_of_pos_right Nat.lt_log2_self hpos

theorem nearestBits_units (n : Nat) :
    nearestBits n unitsPerOne = min infinityBits
      (roundDiv n (Nat.pow 2 (n.log2 - 52)) + (n.log2 - 52) * leadingBit) := by
  have hround (k : Nat) : roundDiv (n * unitsPerOne) (unitsPerOne * k) = roundDiv n k := by
    rw [Nat.mul_comm unitsPerOne, roundDiv_scale _ _ _ unitsPerOne_pos]
  unfold nearestBits
  dsimp only
  rw [Nat.mul_div_cancel _ unitsPerOne_pos, hround]

/-- A mantissa with an exponent is rounded to the double nearest to its units. -/
theorem ofModel_pack_round (negative : Bool) {m : Nat} {e : Int} (hm : 0 < m) (he : -1074 ≤ e) :
    Float.ofModel (Float.Model.pack
        (UnpackedFloat.round Format.binary64 (signOf negative) m e)) =
      nearest negative (m * Nat.pow 2 (e + 1074).toNat) unitsPerOne := by
  unfold UnpackedFloat.round decreaseExponent
  rw [targetExponent_eq]
  dsimp only
  generalize hk : (e - max (m.log2 + e - 52) (-1074)).toNat = k
  have hpos : 0 < m <<< k := by
    rw [Nat.shiftLeft_eq]
    exact Nat.mul_pos hm (Nat.two_pow_pos k)
  have hlog : (m <<< k).log2 = m.log2 + k := by
    rw [Nat.shiftLeft_eq]
    exact log2_mul_pow hm k
  have hleast : -1074 ≤ e - k := by omega
  have hkept : 52 ≤ (m <<< k).log2 ∨ e - k = -1074 := by omega
  obtain ⟨m', e', hm', hn, hround, hbits⟩ := roundWithAccuracy_eq negative hpos hleast hkept
  rw [hround, ofModel_pack_normalized negative hm' hn, hbits]
  generalize hs : (e - k + 1074).toNat = s
  have hunits : m * Nat.pow 2 (e + 1074).toNat = (m <<< k) * Nat.pow 2 s := by
    have hexponent : (e + 1074).toNat = k + s := by omega
    have hpow : Nat.pow 2 (k + s) = 2 ^ k * Nat.pow 2 s := Nat.pow_add 2 k s
    rw [hexponent, Nat.shiftLeft_eq, Nat.mul_assoc, hpow]
  have hshift : (m <<< k).log2 + s - 52 = (m <<< k).log2 - 52 + s := by omega
  have hpow : Nat.pow 2 ((m <<< k).log2 - 52 + s)
      = Nat.pow 2 ((m <<< k).log2 - 52) * Nat.pow 2 s := Nat.pow_add 2 _ _
  unfold nearest
  rw [hunits, nearestBits_units, log2_mul_pow hpos, hshift, hpow,
    roundDiv_scale _ _ (Nat.pow 2 s) (Nat.two_pow_pos s), Nat.add_comm (roundDiv _ _),
    Nat.add_comm s]

/-! ## Adding -/

theorem nearestBits_zero (den : Nat) : nearestBits 0 den = 0 := by
  unfold nearestBits roundDiv
  simp

theorem nearest_zero (negative : Bool) (den : Nat) :
    nearest negative 0 den = withSign negative 0 := by
  unfold nearest
  rw [nearestBits_zero]

theorem nearest_unitsOfBits (negative : Bool) {a : Nat} (ha : a < infinityBits) :
    nearest negative (unitsOfBits a) unitsPerOne = withSign negative a := by
  unfold nearest
  rw [nearestBits_unitsOfBits ha]

theorem ofModel_pack_normalize {m e total : Int} (he : -1074 ≤ e)
    (h : m * (Nat.pow 2 (e + 1074).toNat : Nat) = total) :
    ∃ negative, Float.ofModel (Float.Model.pack
          (UnpackedFloat.normalize Format.binary64 m e .positive)) =
        nearest negative total.natAbs unitsPerOne ∧
      (total ≠ 0 → negative = decide (total < 0)) := by
  have hpos : (0 : Int) < (Nat.pow 2 (e + 1074).toNat : Nat) :=
    Int.natCast_pos.2 (Nat.two_pow_pos _)
  have habs : total.natAbs = m.natAbs * Nat.pow 2 (e + 1074).toNat := by
    rw [← h, Int.natAbs_mul, Int.natAbs_natCast]
  rw [habs]
  unfold UnpackedFloat.normalize
  rcases Int.lt_trichotomy m 0 with hm | rfl | hm
  · have htotal : total < 0 := h ▸ Int.mul_neg_of_neg_of_pos hm hpos
    rw [Int.compare_eq_lt.2 hm, show (-m).toNat = m.natAbs by omega]
    exact ⟨true, ofModel_pack_round true (by omega) he, fun _ => (decide_eq_true htotal).symm⟩
  · refine ⟨false, ?_, fun hne => absurd (h.symm.trans (Int.zero_mul _)) hne⟩
    rw [Int.natAbs_zero, Nat.zero_mul, nearest_zero]
    rfl
  · have htotal : ¬ total < 0 := Int.not_lt.2 (h ▸ Int.le_of_lt (Int.mul_pos hm hpos))
    rw [Int.compare_eq_gt.2 hm, show m.toNat = m.natAbs by omega]
    exact ⟨false, ofModel_pack_round false (by omega) he, fun _ => (decide_eq_false htotal).symm⟩

theorem signed_shiftLeft (negative : Bool) {a m : Nat} {e least : Int} (hn : Normalized m e)
    (ha : (a : Int) = (e + 1074) * leadingBit + m) (hleast : -1074 ≤ least) (hle : least ≤ e) :
    (signOf negative).apply (m <<< (e - least).toNat : Nat)
        * (Nat.pow 2 (least + 1074).toNat : Nat) = signed negative (unitsOfBits a) := by
  have hexponent : (e + 1074).toNat = (e - least).toNat + (least + 1074).toNat := by omega
  have hpow : Nat.pow 2 ((e - least).toNat + (least + 1074).toNat)
      = 2 ^ (e - least).toNat * Nat.pow 2 (least + 1074).toNat := Nat.pow_add 2 _ _
  rw [apply_signOf, signed_mul, unitsOfBits_eq hn ha, hexponent, hpow, Nat.shiftLeft_eq,
    Nat.mul_assoc]

theorem add_shapes {n n' : Bool} {a a' : Nat} {u u' : UnpackedFloat} (h : Shape n a u)
    (h' : Shape n' a' u') (ha : a < infinityBits) (ha' : a' < infinityBits) {total : Int}
    (htotal : signed n (unitsOfBits a) + signed n' (unitsOfBits a') = total) :
    ∃ negative, Float.ofModel (Float.Model.pack (UnpackedFloat.add Format.binary64 u u')) =
        nearest negative total.natAbs unitsPerOne ∧
      (total ≠ 0 → negative = decide (total < 0)) := by
  have hzero (b : Bool) : signed b (unitsOfBits 0) = 0 := by cases b <;> rfl
  cases h with
  | notANumber h => exact absurd ha (Nat.lt_asymm h)
  | infinity h => exact absurd h (Nat.ne_of_lt ha)
  | zero h =>
    subst h
    cases h' with
    | notANumber h' => exact absurd ha' (Nat.lt_asymm h')
    | infinity h' => exact absurd h' (Nat.ne_of_lt ha')
    | zero h' =>
      subst h'
      rw [hzero, hzero] at htotal
      subst htotal
      rw [Int.add_zero, Int.natAbs_zero]
      unfold UnpackedFloat.add
      dsimp only
      split
      · obtain ⟨s, hs⟩ := ofModel_pack_zero (signOf n)
        exact ⟨s, hs.trans (nearest_zero s _).symm, fun h => absurd rfl h⟩
      · obtain ⟨s, hs⟩ := ofModel_pack_zero .positive
        exact ⟨s, hs.trans (nearest_zero s _).symm, fun h => absurd rfl h⟩
    | finite m e hm hn hlt h' =>
      rw [hzero, Int.zero_add] at htotal
      subst htotal
      refine ⟨n', ?_, fun h => (signed_neg_iff h).symm⟩
      rw [natAbs_signed, nearest_unitsOfBits n' ha', ← ofModel_pack_finite hm hn ha' h']
      rfl
  | finite m e hm hn hlt h =>
    cases h' with
    | notANumber h' => exact absurd ha' (Nat.lt_asymm h')
    | infinity h' => exact absurd h' (Nat.ne_of_lt ha')
    | zero h' =>
      subst h'
      rw [hzero, Int.add_zero] at htotal
      subst htotal
      refine ⟨n, ?_, fun h => (signed_neg_iff h).symm⟩
      rw [natAbs_signed, nearest_unitsOfBits n ha, ← ofModel_pack_finite hm hn ha h]
      rfl
    | finite m' e' hm' hn' hlt' h' =>
      have hleast : -1074 ≤ min e e' := Int.le_min.2 ⟨hn.least, hn'.least⟩
      have hx := signed_shiftLeft n hn h hleast (Int.min_le_left e e')
      have hy := signed_shiftLeft n' hn' h' hleast (Int.min_le_right e e')
      refine ofModel_pack_normalize hleast ?_
      rw [Int.add_mul, hx, hy, htotal]

/-- The sum of two finite doubles is the double nearest to the sum of their values. Where that is
zero, its sign is not told. -/
theorem add_eq {x y : Float} (hx : isFinite x = true) (hy : isFinite y = true) :
    ∃ negative, x + y = nearest negative (signedUnits x + signedUnits y).natAbs unitsPerOne ∧
      (signedUnits x + signedUnits y ≠ 0 →
        negative = decide (signedUnits x + signedUnits y < 0)) :=
  add_shapes (shape x) (shape y) (of_decide_eq_true hx) (of_decide_eq_true hy) rfl

/-! ## The rank of a sum -/

/-- The rank of the double nearest to a number of units. -/
def nearestRank (units : Int) : Int :=
  signed (decide (units < 0)) (nearestBits units.natAbs unitsPerOne)

theorem nearestRank_mono {u v : Int} (h : u ≤ v) : nearestRank u ≤ nearestRank v := by
  unfold nearestRank signed
  by_cases hu : u < 0
  · rw [decide_eq_true hu]
    by_cases hv : v < 0
    · have hle : nearestBits v.natAbs unitsPerOne ≤ nearestBits u.natAbs unitsPerOne :=
        nearestBits_mono unitsPerOne (by omega)
      rw [decide_eq_true hv]
      simp only [if_true]
      omega
    · rw [decide_eq_false hv]
      simp only [if_true, Bool.false_eq_true, if_false]
      omega
  · have hv : ¬ v < 0 := by omega
    have hle : nearestBits u.natAbs unitsPerOne ≤ nearestBits v.natAbs unitsPerOne :=
      nearestBits_mono unitsPerOne (by omega)
    rw [decide_eq_false hu, decide_eq_false hv]
    simp only [Bool.false_eq_true, if_false]
    omega

theorem nearestRank_signedUnits {x : Float} (hx : isFinite x = true) :
    nearestRank (signedUnits x) = rank x := by
  have hbits : nearestBits (signedUnits x).natAbs unitsPerOne = magnitudeBits x := by
    unfold signedUnits units
    rw [natAbs_signed]
    exact nearestBits_unitsOfBits (of_decide_eq_true hx)
  unfold nearestRank rank
  by_cases hzero : signedUnits x = 0
  · rw [← hbits, hzero, Int.natAbs_zero, nearestBits_zero, signed_zero, signed_zero]
  · rw [hbits, show decide (signedUnits x < 0) = isNegative x from signed_neg_iff hzero]

/-- The sign of a zero does not count. -/
theorem rank_nearest {negative : Bool} {total : Int}
    (hsign : total ≠ 0 → negative = decide (total < 0)) :
    rank (nearest negative total.natAbs unitsPerOne) = nearestRank total := by
  unfold nearest
  rw [rank_withSign negative (nearestBits_le _ _)]
  unfold nearestRank
  by_cases hzero : total = 0
  · rw [hzero, Int.natAbs_zero, nearestBits_zero, signed_zero, signed_zero]
  · rw [hsign hzero]

theorem rank_add {x y : Float} (hx : isFinite x = true) (hy : isFinite y = true) :
    rank (x + y) = nearestRank (signedUnits x + signedUnits y) := by
  obtain ⟨negative, hadd, hsign⟩ := add_eq hx hy
  rw [hadd]
  exact rank_nearest hsign

theorem isNumber_add {x y : Float} (hx : isFinite x = true) (hy : isFinite y = true) :
    isNumber (x + y) = true := by
  obtain ⟨negative, hadd, -⟩ := add_eq hx hy
  rw [hadd]
  exact isNumber_withSign negative (nearestBits_le _ _)

theorem signedUnits_nonpos {y : Float} (h : rank y ≤ 0) : signedUnits y ≤ 0 := by
  unfold rank at h
  unfold signedUnits
  cases hy : isNegative y with
  | true => exact Int.neg_nonpos_of_nonneg (Int.natCast_nonneg _)
  | false =>
    rw [hy] at h
    have hzero : magnitudeBits y = 0 := by
      have hle : (magnitudeBits y : Int) ≤ 0 := h
      omega
    unfold units
    rw [hzero]
    exact Int.le_refl _

/-- A negative infinity stays what it is. -/
theorem add_negative_infinity {x y : Float} (hx : isFinite x = true)
    (hy : magnitudeBits y = infinityBits) (hn : isNegative y = true) :
    x + y = withSign true infinityBits := by
  have hsx := shape x
  have hsy := shape y
  have hlt : magnitudeBits x < infinityBits := of_decide_eq_true hx
  rw [hy, hn] at hsy
  show Float.ofModel (Float.Model.pack
    (UnpackedFloat.add Format.binary64 x.toModel.unpack y.toModel.unpack)) = _
  generalize x.toModel.unpack = u at hsx ⊢
  generalize y.toModel.unpack = v at hsy ⊢
  cases hsy with
  | notANumber h => exact absurd h (Nat.lt_irrefl _)
  | zero h => exact absurd h (by decide)
  | finite m e hm hn hlt h => exact absurd hlt (Nat.lt_irrefl _)
  | infinity h =>
    cases hsx with
    | notANumber h => exact absurd hlt (Nat.lt_asymm h)
    | infinity h => exact absurd h (Nat.ne_of_lt hlt)
    | zero h => rfl
    | finite m e hm hn hlt h => rfl

/-- Adding what is not above zero leads no higher: rounding keeps the order, and a double is
rounded to itself. -/
theorem rank_add_le {x y : Float} (hx : isFinite x = true) (hy : isNumber y = true)
    (h : rank y ≤ 0) : isNumber (x + y) = true ∧ rank (x + y) ≤ rank x := by
  by_cases hfinite : isFinite y = true
  · have hle : signedUnits x + signedUnits y ≤ signedUnits x := by
      have := signedUnits_nonpos h
      omega
    refine ⟨isNumber_add hx hfinite, ?_⟩
    rw [rank_add hx hfinite, ← nearestRank_signedUnits hx]
    exact nearestRank_mono hle
  · have hle : magnitudeBits y ≤ infinityBits := of_decide_eq_true hy
    have hge : infinityBits ≤ magnitudeBits y :=
      Nat.not_lt.1 fun hlt => hfinite (decide_eq_true hlt)
    have htop : magnitudeBits y = infinityBits := Nat.le_antisymm hle hge
    have hneg : isNegative y = true := by
      unfold rank at h
      rw [htop] at h
      refine eq_true_of_ne_false fun hn => ?_
      rw [hn] at h
      exact absurd h (by decide)
    rw [add_negative_infinity hx htop hneg]
    refine ⟨isNumber_withSign true (Nat.le_refl _), ?_⟩
    rw [rank_withSign true (Nat.le_refl _)]
    exact Int.le_of_lt (between_infinities (isNegative x) (of_decide_eq_true hx)).1

end VirtualChannels.Number
