import VirtualChannels.Proofs.Number.Bits

/-
  The value of a double, read off its bit pattern. Unpacked, a double is no number, infinite, zero,
  or a mantissa with an exponent, and its magnitude as a whole number tells which (`shape`). The
  magnitudes of the finite ones stand in the order of their values, so the pattern alone will do for
  comparing, and the units of 2^-1074 for adding (`unitsOfBits_eq`).
-/

namespace VirtualChannels.Number

open Float.Model (Format UnpackedFloat)
open Float.Model.UnpackedFloat

def signOf (negative : Bool) : Sign := if negative then .negative else .positive

/-- A whole number with a sign. -/
def signed (negative : Bool) (n : Nat) : Int := if negative then -n else n

theorem natAbs_signed (negative : Bool) (n : Nat) : (signed negative n).natAbs = n := by
  unfold signed
  split <;> omega

theorem signed_natAbs (i : Int) : signed (decide (i < 0)) i.natAbs = i := by
  unfold signed
  by_cases hneg : i < 0
  · rw [decide_eq_true hneg, if_pos rfl]
    omega
  · rw [decide_eq_false hneg, if_neg Bool.false_ne_true]
    omega

theorem signed_mul (negative : Bool) (n k : Nat) :
    signed negative n * k = signed negative (n * k) := by
  cases negative with
  | false => rfl
  | true => exact Int.neg_mul _ _

theorem signed_neg_iff {negative : Bool} {n : Nat} (h : signed negative n ≠ 0) :
    decide (signed negative n < 0) = negative := by
  unfold signed at *
  cases negative with
  | false => exact decide_eq_false (by simp)
  | true => exact decide_eq_true (by simp at h ⊢; omega)

theorem apply_signOf (negative : Bool) (n : Nat) :
    (signOf negative).apply n = signed negative n := by
  cases negative <;> rfl

/-! ## Shapes -/

/-- A mantissa of 53 bits, which has its leading bit unless the exponent is the least one. -/
structure Normalized (m : Nat) (e : Int) : Prop where
  pos : 0 < m
  lt : m < 2 * leadingBit
  least : -1074 ≤ e
  normal : leadingBit ≤ m ∨ e = -1074

/-- What a double with a sign and a magnitude is when it is unpacked. -/
inductive Shape (negative : Bool) (magnitude : Nat) : UnpackedFloat → Prop where
  | notANumber (h : infinityBits < magnitude) : Shape negative magnitude .notANumber
  | infinity (h : magnitude = infinityBits) : Shape negative magnitude (.infinity (signOf negative))
  | zero (h : magnitude = 0) : Shape negative magnitude (.zero (signOf negative))
  | finite (m : Nat) (e : Int) (hm : 0 < m) (hn : Normalized m e) (hlt : magnitude < infinityBits)
      (h : (magnitude : Int) = (e + 1074) * leadingBit + m) :
      Shape negative magnitude (.finite (signOf negative) m e hm)

theorem shape_unpack {b : BitVec Format.binary64.numBits} {negative : Bool}
    (hs : Sign.ofBitVec (unpackSign b) = signOf negative) :
    Shape negative ((unpackExponent b).toNat * leadingBit + (unpackMantissa b).toNat)
      (unpack Format.binary64 b) := by
  have hm : (unpackMantissa b).toNat < leadingBit := (unpackMantissa b).isLt
  have he : (unpackExponent b).toNat < 2048 := (unpackExponent b).isLt
  have hbias : ((Format.binary64.exponentBias : Nat) : Int) = 1023 := rfl
  unfold unpack
  dsimp only
  rw [hs]
  by_cases hinfinite : unpackExponent b = -1#11
  · have htop : (unpackExponent b).toNat * leadingBit = infinityBits := by
      rw [hinfinite]
      rfl
    rw [if_pos hinfinite, htop]
    by_cases hzero : unpackMantissa b = 0#52
    · rw [if_pos hzero, hzero]
      exact .infinity rfl
    · have hne : (unpackMantissa b).toNat ≠ 0 := fun h => hzero (BitVec.eq_of_toNat_eq h)
      rw [if_neg hzero]
      exact .notANumber (by omega)
  · have hne : (unpackExponent b).toNat ≠ 2047 := fun h => hinfinite (BitVec.eq_of_toNat_eq h)
    rw [if_neg hinfinite]
    by_cases hleast : unpackExponent b = 0#11
    · have hexponent : (unpackExponent b).toNat = 0 := by rw [hleast]; rfl
      rw [if_pos hleast, hexponent, Nat.zero_mul, Nat.zero_add]
      by_cases hzero : unpackMantissa b = 0#52
      · rw [dif_pos hzero, hzero]
        exact .zero rfl
      · have hpos : 0 < (unpackMantissa b).toNat :=
          Nat.pos_of_ne_zero fun h => hzero (BitVec.eq_of_toNat_eq h)
        rw [dif_neg hzero]
        refine .finite _ _ hpos ⟨hpos, by omega, ?_, Or.inr ?_⟩ ?_ ?_
        · rw [hbias]
          decide
        · rw [hbias]
          rfl
        · unfold leadingBit at hm
          unfold infinityBits
          omega
        · rw [hbias]
          omega
    · have hpos : (unpackExponent b).toNat ≠ 0 := fun h => hleast (BitVec.eq_of_toNat_eq h)
      have hwhole := toNat_leading (unpackMantissa b)
      rw [if_neg hleast]
      refine .finite _ _ _ ⟨?_, ?_, ?_, Or.inl ?_⟩ ?_ ?_
      · rw [hwhole]
        exact Nat.add_pos_left (by decide) _
      · rw [hwhole]
        omega
      · rw [hbias]
        omega
      · rw [hwhole]
        exact Nat.le_add_right _ _
      · unfold leadingBit at hm ⊢
        unfold infinityBits
        omega
      · rw [hbias, hwhole]
        unfold leadingBit
        omega

theorem toNat_unpackSign (w : UInt64) :
    (@unpackSign Format.binary64 w.toBitVec).toNat = w.toNat / signBit := by
  have hlt : w.toNat < 2 * signBit := w.toNat_lt
  unfold unpackSign
  rw [BitVec.toNat_cast, BitVec.extractLsb_toNat, Nat.shiftRight_eq_div_pow]
  show w.toNat / signBit % 2 = _
  unfold signBit at *
  omega

theorem ofBitVec_unpackSign (x : Float) :
    Sign.ofBitVec (@unpackSign Format.binary64 x.toBits.toBitVec) = signOf (isNegative x) := by
  have h := toNat_unpackSign x.toBits
  have hlt : bits x < 2 * signBit := x.toBits.toNat_lt
  have hbit : x.toBits.toNat / signBit = if isNegative x then 1 else 0 := by
    show bits x / signBit = _
    unfold isNegative
    unfold signBit at *
    simp only [decide_eq_true_eq]
    split <;> omega
  rw [hbit] at h
  generalize @unpackSign Format.binary64 x.toBits.toBitVec = sign at h ⊢
  cases hn : isNegative x with
  | true =>
    rw [hn] at h
    rw [show sign = 1#1 from BitVec.eq_of_toNat_eq h]
    rfl
  | false =>
    rw [hn] at h
    rw [show sign = 0#1 from BitVec.eq_of_toNat_eq h]
    rfl

theorem shape (x : Float) : Shape (isNegative x) (magnitudeBits x) x.toModel.unpack := by
  have h := shape_unpack (ofBitVec_unpackSign x)
  have hsplit : magnitudeBits x =
      bits x / leadingBit % 2048 * leadingBit + bits x % leadingBit := by
    unfold magnitudeBits leadingBit signBit
    omega
  rw [toNat_unpackExponent, toNat_unpackMantissa] at h
  rw [hsplit]
  exact h

/-! ## Values -/

/-- The units of a finite double are its mantissa times a power of two. -/
theorem unitsOfBits_eq {m a : Nat} {e : Int} (h : Normalized m e)
    (ha : (a : Int) = (e + 1074) * leadingBit + m) :
    unitsOfBits a = m * Nat.pow 2 (e + 1074).toNat := by
  obtain ⟨-, hlt, hleast, hnormal⟩ := h
  generalize hk : (e + 1074).toNat = k
  have hsplit : a = k * leadingBit + m := by
    have he : e + 1074 = k := by omega
    rw [he] at ha
    exact_mod_cast ha
  unfold unitsOfBits
  by_cases hlead : leadingBit ≤ m
  · have hquotient : a / leadingBit = k + 1 := by
      rw [hsplit]
      unfold leadingBit at *
      omega
    have hremainder : leadingBit + a % leadingBit = m := by
      rw [hsplit]
      unfold leadingBit at *
      omega
    rw [if_neg (by omega), hquotient, hremainder]
    rfl
  · have hzero : k = 0 := by omega
    subst hzero
    rw [Nat.zero_mul, Nat.zero_add] at hsplit
    rw [if_pos (by omega), hsplit]
    exact (Nat.mul_one m).symm

/-- The value of a finite double in units of 2^-1074. -/
def signedUnits (x : Float) : Int := signed (isNegative x) (units x)

end VirtualChannels.Number
