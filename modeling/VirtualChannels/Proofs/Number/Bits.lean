import VirtualChannels.Number.Double

/-
  Doubles and their bit patterns. A double is its sign and its magnitude
  (`withSign_magnitudeBits`), and a magnitude of no more than infinity is kept when a double is
  made from it (`magnitudeBits_withSign`).
-/

namespace VirtualChannels.Number

open Float.Model (Format)
open Float.Model.UnpackedFloat

/-! ## Packing -/

theorem append_extractLsb (b : BitVec 64) :
    b.extractLsb 63 63 ++ b.extractLsb 62 52 ++ b.extractLsb 51 0 = b := by
  ext i hi
  simp only [BitVec.extractLsb, BitVec.getElem_append, BitVec.getElem_extractLsb']
  split
  · rw [Nat.zero_add, BitVec.getLsbD_eq_getElem hi]
  · split
    · rw [BitVec.getLsbD_eq_getElem (by omega)]
      congr 1
      omega
    · rw [BitVec.getLsbD_eq_getElem (by omega)]
      congr 1
      omega

/-- A pattern is its sign, its exponent and its mantissa. -/
theorem packComponents_eq {b : BitVec Format.binary64.numBits}
    {e : BitVec Format.binary64.exponentBits}
    {m : BitVec Format.binary64.mantissaBitsWithoutImplicit} (he : unpackExponent b = e)
    (hm : unpackMantissa b = m) :
    packComponents Format.binary64 (.ofBitVec (unpackSign b)) e m = b := by
  have hs : ∀ v : BitVec 1, (Sign.ofBitVec v).toBitVec = v := by decide
  rw [← he, ← hm]
  unfold packComponents
  rw [hs]
  exact append_extractLsb b

theorem toNat_leading (m : BitVec 52) : (1#1 ++ m).toNat = leadingBit + m.toNat := by
  rw [BitVec.toNat_append]
  exact (Nat.shiftLeft_add_eq_or_of_lt m.isLt 1).symm

/-- Below the leading bit the exponent is the least one, and its pattern is zero. -/
theorem pack_subnormal {s : Sign} {m : BitVec 52} {e : Int} (hm : 0 < m.toNat)
    (he : e + Format.binary64.exponentBias + (52 : Nat) = 1) :
    pack Format.binary64 (.finite s m.toNat e hm) = packComponents Format.binary64 s 0#11 m := by
  have hlog : m.toNat.log2 < 52 := (Nat.log2_lt (Nat.ne_of_gt hm)).2 m.isLt
  have hbits : Format.binary64.mantissaBits = 53 := rfl
  unfold pack
  dsimp only
  rw [he, if_neg (by decide), if_neg (by omega), BitVec.ofNat_toNat, BitVec.setWidth_eq]

/-- With the leading bit the exponent is kept, and the leading bit is left out. -/
theorem pack_normal {s : Sign} {m : BitVec 52} {x : BitVec 11} {e : Int}
    (hm : 0 < (1#1 ++ m).toNat) (he : e + Format.binary64.exponentBias + (52 : Nat) = x.toNat)
    (hx : x ≠ -1#11) :
    pack Format.binary64 (.finite s (1#1 ++ m).toNat e hm) =
      packComponents Format.binary64 s x m := by
  have hlt : m.toNat < leadingBit := m.isLt
  have hxlt : x.toNat < 2048 := x.isLt
  have hne : x.toNat ≠ 2047 := fun h => hx (BitVec.eq_of_toNat_eq h)
  have hwhole := toNat_leading m
  have hlog : (1#1 ++ m).toNat.log2 = 52 := by
    unfold leadingBit at hwhole hlt
    refine (Nat.log2_eq_iff (Nat.ne_of_gt hm)).2 ⟨?_, ?_⟩ <;> rw [hwhole]
    · exact Nat.le_add_right _ _
    · show _ < 0x20000000000000
      omega
  have hdrop : BitVec.ofNat 52 (leadingBit + m.toNat) = m := by
    apply BitVec.eq_of_toNat_eq
    show (leadingBit + m.toNat) % leadingBit = m.toNat
    rw [Nat.add_mod_left, Nat.mod_eq_of_lt hlt]
  unfold pack
  dsimp only
  rw [he, Int.toNat_natCast, if_neg (by omega), hlog, if_pos (by rfl), hwhole, hdrop,
    BitVec.ofNat_toNat, BitVec.setWidth_eq]

/-- Of the patterns of no number only one is valid. -/
theorem pack_unpack {b : BitVec Format.binary64.numBits} (h : Format.binary64.Valid b) :
    pack Format.binary64 (unpack Format.binary64 b) = b := by
  unfold unpack
  dsimp only
  by_cases he : unpackExponent b = -BitVec.ofNat _ 1
  · rw [if_pos he]
    by_cases hm : unpackMantissa b = BitVec.ofNat _ 0
    · rw [if_pos hm]
      exact packComponents_eq he hm
    · rw [if_neg hm]
      exact (h.eq_packedNaN he hm).symm
  · rw [if_neg he]
    by_cases hzero : unpackExponent b = BitVec.ofNat _ 0
    · rw [if_pos hzero]
      by_cases hm : unpackMantissa b = BitVec.ofNat _ 0
      · rw [dif_pos hm]
        exact packComponents_eq hzero hm
      · rw [dif_neg hm, pack_subnormal]
        · exact packComponents_eq hzero rfl
        · rw [hzero]
          decide
    · rw [if_neg hzero, pack_normal _ _ he]
      · exact packComponents_eq rfl rfl
      · generalize Format.binary64.exponentBias = bias
        omega

/-! ## Patterns as numbers -/

theorem toNat_unpackExponent (w : UInt64) :
    (@unpackExponent Format.binary64 w.toBitVec).toNat = w.toNat / leadingBit % 2048 := by
  unfold unpackExponent
  rw [BitVec.toNat_cast, BitVec.extractLsb_toNat, Nat.shiftRight_eq_div_pow]
  rfl

theorem toNat_unpackMantissa (w : UInt64) :
    (@unpackMantissa Format.binary64 w.toBitVec).toNat = w.toNat % leadingBit := by
  unfold unpackMantissa
  rw [BitVec.toNat_cast, BitVec.extractLsb_toNat, Nat.shiftRight_zero]
  rfl

theorem valid_of_le {w : UInt64} (h : w.toNat % signBit ≤ infinityBits) :
    Format.binary64.Valid w.toBitVec := by
  refine ⟨fun he hm => absurd (BitVec.eq_of_toNat_eq ?_) hm⟩
  have he' : w.toNat / leadingBit % 2048 = 2047 := by
    rw [← toNat_unpackExponent, he]
    rfl
  rw [toNat_unpackMantissa]
  show w.toNat % leadingBit = 0
  unfold signBit infinityBits at h
  unfold leadingBit at he' ⊢
  omega

theorem toBits_ofBits {w : UInt64} (h : w.toNat % signBit ≤ infinityBits) :
    (Float.ofBits w).toBits = w :=
  UInt64.toBitVec_inj.1 (pack_unpack (valid_of_le h))

theorem ofBits_toBits (x : Float) : Float.ofBits x.toBits = x := by
  obtain ⟨w, hw⟩ := x
  show Float.ofModel ⟨UInt64.ofBitVec (pack Format.binary64 (unpack Format.binary64 w.toBitVec)), _⟩
    = _
  congr
  exact pack_unpack hw

/-! ## Signs and magnitudes -/

theorem bits_withSign (negative : Bool) {m : Nat} (hm : m ≤ infinityBits) :
    bits (withSign negative m) = (if negative then signBit else 0) + m := by
  have hword : ((if negative then signBit else 0) + m).toUInt64.toNat
      = (if negative then signBit else 0) + m := by
    refine Nat.mod_eq_of_lt ?_
    unfold infinityBits at hm
    unfold signBit
    split <;> omega
  unfold bits withSign ofBits
  rw [toBits_ofBits, hword]
  rw [hword]
  unfold infinityBits at hm ⊢
  unfold signBit
  split <;> omega

@[simp] theorem magnitudeBits_withSign (negative : Bool) {m : Nat} (hm : m ≤ infinityBits) :
    magnitudeBits (withSign negative m) = m := by
  unfold magnitudeBits
  rw [bits_withSign negative hm]
  unfold infinityBits at hm
  unfold signBit
  split <;> omega

/-- A double is its sign and its magnitude. -/
theorem withSign_magnitudeBits (x : Float) : withSign (isNegative x) (magnitudeBits x) = x := by
  have hlt : bits x < 2 * signBit := x.toBits.toNat_lt
  have hsum : (if isNegative x then signBit else 0) + magnitudeBits x = bits x := by
    unfold isNegative magnitudeBits
    unfold signBit at hlt ⊢
    simp only [decide_eq_true_eq]
    split <;> omega
  unfold withSign ofBits
  rw [hsum]
  unfold bits
  rw [Nat.toUInt64_eq, UInt64.ofNat_toNat]
  exact ofBits_toBits x

/-- A double, or the positive zero for a negative one. -/
def withoutZeroSign (x : Float) : Float := if isZero x then zero false else x

theorem withoutZeroSign_of_ne {x : Float} (h : magnitudeBits x ≠ 0) : withoutZeroSign x = x :=
  if_neg fun hz => h (eq_of_beq hz)

theorem withoutZeroSign_of_eq {x : Float} (h : magnitudeBits x = 0) :
    withoutZeroSign x = zero false :=
  if_pos (by unfold isZero; rw [h]; rfl)

end VirtualChannels.Number
