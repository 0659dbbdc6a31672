import Mathlib.Algebra.Order.Field.Rat
import Mathlib.Algebra.Order.Field.Basic
import Mathlib.Data.Int.Cast.Lemmas
import VirtualChannels.Proofs.Number.WholeNumbers

/-
  The exact values of doubles. A finite double is a rational number (`toRat`), and comparing doubles
  is comparing these (`toRat_lt_iff`, `toRat_le_iff`). The natural numbers among the doubles are
  those whose value is one (`isNatural_iff`).
-/

namespace VirtualChannels.Number

/-- The exact value of a finite double. -/
def toRat (x : Float) : ℚ := signedUnits x / unitsPerOne

theorem unitsPerOne_rat_pos : (0 : ℚ) < unitsPerOne := Nat.cast_pos.2 unitsPerOne_pos

section
variable {x y : Float}

theorem toRat_le_iff (hx : isFinite x = true) (hy : isFinite y = true) :
    toRat x ≤ toRat y ↔ x ≤ y := by
  unfold toRat
  rw [div_le_div_iff_of_pos_right unitsPerOne_rat_pos, Int.cast_le, signedUnits_le_iff hx hy,
    le_iff (isNumber_of_isFinite hx) (isNumber_of_isFinite hy)]

theorem toRat_lt_iff (hx : isFinite x = true) (hy : isFinite y = true) :
    toRat x < toRat y ↔ x < y := by
  rw [← not_le, toRat_le_iff hy hx, le_iff (isNumber_of_isFinite hy) (isNumber_of_isFinite hx),
    lt_iff (isNumber_of_isFinite hx) (isNumber_of_isFinite hy), not_le]

theorem toRat_eq_intCast_iff (x : Float) (i : Int) :
    toRat x = i ↔ signedUnits x = i * unitsPerOne := by
  unfold toRat
  rw [div_eq_iff unitsPerOne_rat_pos.ne', ← Int.cast_natCast, ← Int.cast_mul, Int.cast_inj]

theorem units_eq_zero_iff (x : Float) : units x = 0 ↔ isZero x = true := by
  unfold units isZero
  rw [beq_iff_eq]
  constructor
  · intro h
    by_contra hne
    exact absurd h (Nat.ne_of_gt (unitsOfBits_pos (Nat.pos_of_ne_zero hne)))
  · intro h
    rw [h]
    rfl

/-- A double is a natural number exactly if it is finite and its value is one. -/
theorem isNatural_iff (x : Float) :
    isNatural x = true ↔ isFinite x = true ∧ ∃ n : ℕ, toRat x = n := by
  have hvalue (n : ℕ) : toRat x = n ↔ signedUnits x = n * unitsPerOne := by
    rw [← Int.cast_natCast, toRat_eq_intCast_iff]
  unfold isNatural isWhole
  simp only [Bool.and_eq_true, Bool.or_eq_true, Bool.not_eq_true', beq_iff_eq]
  constructor
  · rintro ⟨⟨hfinite, hwhole⟩, hsign⟩
    have hunits : units x = wholeUnits x * unitsPerOne :=
      (Nat.div_mul_cancel (Nat.dvd_of_mod_eq_zero hwhole)).symm
    refine ⟨hfinite, wholeUnits x, (hvalue _).2 ?_⟩
    have hsigned : signedUnits x = units x := by
      unfold signedUnits
      rcases hsign with hpositive | hzero
      · rw [hpositive]
        rfl
      · rw [(units_eq_zero_iff x).2 hzero, signed_zero]
        rfl
    rw [hsigned, hunits, Nat.cast_mul]
  · rintro ⟨hfinite, n, hn⟩
    rw [hvalue, ← Nat.cast_mul] at hn
    have hunits : units x = n * unitsPerOne := by
      rw [← natAbs_signed (isNegative x) (units x)]
      exact (congrArg Int.natAbs hn).trans (Int.natAbs_natCast _)
    have hwhole : units x % unitsPerOne = 0 := by rw [hunits, Nat.mul_mod_left]
    refine ⟨⟨hfinite, hwhole⟩, ?_⟩
    cases hsign : isNegative x with
    | false => exact Or.inl rfl
    | true =>
      refine Or.inr ((units_eq_zero_iff x).1 ?_)
      have hnegative : signedUnits x = -(units x : Int) := by
        unfold signedUnits
        rw [hsign]
        rfl
      omega

end

end VirtualChannels.Number
