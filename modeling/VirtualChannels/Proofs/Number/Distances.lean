import Mathlib.Algebra.Order.Ring.Int
import Mathlib.Order.Monotone.Defs
import VirtualChannels.Proofs.Number.Sums

/-
  Distances of doubles. Subtracting a double is adding the one with the other sign, so a difference
  is rounded as a sum is. The distance of two finite doubles is the one between their values,
  rounded by a function that keeps the order (`rank_distance`, `nearestRank_mono`).
-/

namespace VirtualChannels.Number

open Float.Model (Format UnpackedFloat)
open Float.Model.UnpackedFloat

/-! ## Signs -/

theorem signed_not (negative : Bool) (n : Nat) : signed (!negative) n = -signed negative n := by
  cases negative with
  | false => rfl
  | true => exact (Int.neg_neg _).symm

theorem apply_neg (s : Sign) (i : Int) : (-s).apply i = -s.apply i := by
  cases s with
  | positive => rfl
  | negative => exact (Int.neg_neg i).symm

theorem sub_eq_add_neg (u v : UnpackedFloat) :
    UnpackedFloat.sub Format.binary64 u v = UnpackedFloat.add Format.binary64 u v.neg := by
  cases u with
  | notANumber => rfl
  | infinity s => cases v <;> rfl
  | zero s => cases v <;> rfl
  | finite s m e hm =>
    cases v with
    | notANumber => rfl
    | infinity s' => rfl
    | zero s' => rfl
    | finite s' m' e' hm' =>
      unfold UnpackedFloat.sub UnpackedFloat.add UnpackedFloat.neg
      dsimp only
      rw [apply_neg, Int.sub_eq_add_neg]

section
variable {n : Bool} {a : Nat} {u : UnpackedFloat}

theorem Shape.neg (h : Shape n a u) : Shape (!n) a u.neg := by
  have hsign : signOf (!n) = -signOf n := by cases n <;> rfl
  cases h with
  | notANumber h => exact .notANumber h
  | infinity h =>
    show Shape (!n) a (.infinity (-signOf n))
    exact hsign ▸ .infinity h
  | zero h =>
    show Shape (!n) a (.zero (-signOf n))
    exact hsign ▸ .zero h
  | finite m e hm hn hlt h =>
    show Shape (!n) a (.finite (-signOf n) m e hm)
    exact hsign ▸ .finite m e hm hn hlt h

theorem Shape.abs (h : Shape n a u) : Shape false a u.abs := by
  cases h with
  | notANumber h => exact .notANumber h
  | infinity h => exact .infinity h
  | zero h => exact .zero h
  | finite m e hm hn hlt h => exact .finite m e hm hn hlt h

/-- What has been unpacked is packed as it was. -/
theorem Shape.ofModel_pack (h : Shape n a u) (ha : a ≤ infinityBits) :
    Float.ofModel (Float.Model.pack u) = withSign n a := by
  cases h with
  | notANumber h => exact absurd ha (Nat.not_le.2 h)
  | infinity h =>
    subst h
    cases n <;> rfl
  | zero h =>
    subst h
    cases n <;> rfl
  | finite m e hm hn hlt h => exact ofModel_pack_finite hm hn hlt h

end

/-! ## Differences -/

section
variable {x y : Float}

/-- The difference of two finite doubles is the double nearest to the difference of their values. -/
theorem sub_eq (hx : isFinite x = true) (hy : isFinite y = true) :
    ∃ negative, x - y = nearest negative (signedUnits x - signedUnits y).natAbs unitsPerOne ∧
      (signedUnits x - signedUnits y ≠ 0 →
        negative = decide (signedUnits x - signedUnits y < 0)) := by
  have htotal : signed (isNegative x) (unitsOfBits (magnitudeBits x)) +
      signed (!isNegative y) (unitsOfBits (magnitudeBits y)) = signedUnits x - signedUnits y := by
    rw [signed_not]
    rfl
  have hsub : x - y = Float.ofModel (Float.Model.pack
      (UnpackedFloat.sub Format.binary64 x.toModel.unpack y.toModel.unpack)) := rfl
  rw [hsub, sub_eq_add_neg]
  exact add_shapes (shape x) (shape y).neg (of_decide_eq_true hx) (of_decide_eq_true hy) htotal

theorem rank_sub (hx : isFinite x = true) (hy : isFinite y = true) :
    rank (x - y) = nearestRank (signedUnits x - signedUnits y) := by
  obtain ⟨negative, hsub, hsign⟩ := sub_eq hx hy
  rw [hsub]
  exact rank_nearest hsign

theorem isNumber_sub (hx : isFinite x = true) (hy : isFinite y = true) :
    isNumber (x - y) = true := by
  obtain ⟨negative, hsub, -⟩ := sub_eq hx hy
  rw [hsub]
  exact isNumber_withSign negative (nearestBits_le _ _)

/-! ## Distances -/

theorem abs_eq (hx : isNumber x = true) : x.abs = withSign false (magnitudeBits x) :=
  (shape x).abs.ofModel_pack (of_decide_eq_true hx)

theorem isNumber_distance (hx : isFinite x = true) (hy : isFinite y = true) :
    isNumber (x - y).abs = true := by
  have hnumber := isNumber_sub hx hy
  rw [abs_eq hnumber]
  exact isNumber_withSign false (of_decide_eq_true hnumber)

theorem rank_distance (hx : isFinite x = true) (hy : isFinite y = true) :
    rank (x - y).abs = nearestRank |signedUnits x - signedUnits y| := by
  have hnumber := isNumber_sub hx hy
  have hbits : magnitudeBits (x - y) =
      nearestBits (signedUnits x - signedUnits y).natAbs unitsPerOne := by
    have hrank := rank_sub hx hy
    unfold rank nearestRank at hrank
    rw [← natAbs_signed (isNegative (x - y)) (magnitudeBits (x - y)), hrank, natAbs_signed]
  rw [abs_eq hnumber, rank_withSign false (of_decide_eq_true hnumber), hbits,
    Int.abs_eq_natAbs]
  generalize (signedUnits x - signedUnits y).natAbs = d
  unfold nearestRank
  rw [decide_eq_false (Int.not_lt.2 (Int.natCast_nonneg d)), Int.natAbs_natCast]

/-- The value of a double is told by its rank. -/
theorem signedUnits_eq (x : Float) :
    signedUnits x = signed (decide (rank x < 0)) (unitsOfBits (rank x).natAbs) := by
  unfold signedUnits units rank
  rw [natAbs_signed]
  by_cases hzero : signed (isNegative x) (magnitudeBits x) = 0
  · have hbits : magnitudeBits x = 0 := by
      rw [← natAbs_signed (isNegative x) (magnitudeBits x), hzero, Int.natAbs_zero]
    have hunits : unitsOfBits 0 = 0 := rfl
    rw [hbits, hunits, signed_zero, signed_zero]
  · rw [signed_neg_iff hzero]

/-- Finite doubles stand in the order of their values. -/
theorem signedUnits_le_iff (hx : isFinite x = true) (hy : isFinite y = true) :
    signedUnits x ≤ signedUnits y ↔ rank x ≤ rank y := by
  constructor
  · intro h
    rw [← nearestRank_signedUnits hx, ← nearestRank_signedUnits hy]
    exact nearestRank_mono h
  · intro h
    rcases Int.lt_or_eq_of_le h with hlt | heq
    · refine Int.le_of_not_gt fun hgt => absurd hlt (Int.not_lt.2 ?_)
      rw [← nearestRank_signedUnits hx, ← nearestRank_signedUnits hy]
      exact nearestRank_mono (Int.le_of_lt hgt)
    · rw [signedUnits_eq, signedUnits_eq, heq]

end

end VirtualChannels.Number
