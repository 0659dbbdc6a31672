import VirtualChannels.Proofs.Number.Nearest
import VirtualChannels.Proofs.Reference.Separated

/-
  Numbers without an exponent: an optional sign, digits, and optionally a point with more digits
  behind it. Such a text is read as the double nearest to its value (`IsFixed.exists_read?`),
  however many digits it has, since what a decimal is cut off at is beyond the doubles anyway
  (`Decimal.magnitude_eq`).
-/

namespace VirtualChannels

/-! ## Decimals -/

namespace Number

/-- The least power of two that is no double. -/
def overflow : Nat := Nat.pow 2 1024

/-- From there on the nearest magnitude is infinite. -/
theorem nearestBits_of_large {num den : Nat} (hden : 0 < den) (h : overflow * den ≤ num) :
    nearestBits num den = infinityBits := by
  have hlimit : nearestBits (overflow * den) den = infinityBits := by
    have hscale := nearestBits_scale overflow 1 den hden
    rw [Nat.one_mul] at hscale
    rw [hscale]
    decide +kernel
  exact Nat.le_antisymm (nearestBits_le num den) (hlimit ▸ nearestBits_mono den h)

/-- Below 2^-1075 the nearest magnitude is zero. -/
theorem nearestBits_of_small {num den : Nat} (h : 2 * (num * unitsPerOne) < den) :
    nearestBits num den = 0 := by
  have hquotient : num * unitsPerOne / den = 0 := Nat.div_eq_of_lt (by omega)
  have hround : roundDiv (num * unitsPerOne) (den * Nat.pow 2 0) = 0 := by
    have hone : den * Nat.pow 2 0 = den := Nat.mul_one den
    unfold roundDiv
    dsimp only
    rw [hone, hquotient, Nat.mod_eq_of_lt (by omega), if_pos h]
  unfold nearestBits
  dsimp only
  rw [hquotient, Nat.log2_zero, Nat.zero_sub, hround]
  decide

end Number

namespace Decimal

theorem pow_digitCount_le {n : Nat} (h : n ≠ 0) : Nat.pow 10 (digitCount n - 1) ≤ n := by
  fun_induction digitCount n with
  | case1 n hn => exact Nat.pos_of_ne_zero h
  | case2 n hn ih =>
    have hle := ih (by omega)
    have hpos : 0 < digitCount (n / 10) := by
      unfold digitCount
      split <;> omega
    obtain ⟨k, hk⟩ := Nat.exists_eq_add_of_lt hpos
    rw [Nat.zero_add] at hk
    rw [hk, Nat.add_sub_cancel] at hle ⊢
    show Nat.pow 10 k * 10 ≤ n
    omega

theorem fraction_den_pos (d : Decimal) : 0 < d.fraction.2 := by
  unfold fraction
  split
  · exact Nat.one_pos
  · exact Nat.pow_pos (by decide)

/-- Where the point is far to the right, the decimal is large. -/
theorem le_fraction {d : Decimal} {k : Nat} (hd : d.digits ≠ 0)
    (h : (k : Int) < digitCount d.digits + d.exponent) :
    Nat.pow 10 k * d.fraction.2 ≤ d.fraction.1 := by
  have hdigits := pow_digitCount_le hd
  obtain ⟨negative, digits, exponent⟩ := d
  cases exponent with
  | ofNat e =>
    have hsum : k ≤ digitCount digits - 1 + e := by
      simp only [Int.ofNat_eq_natCast] at h
      omega
    dsimp only [fraction]
    rw [Nat.mul_one]
    calc Nat.pow 10 k ≤ Nat.pow 10 (digitCount digits - 1 + e) := Nat.pow_le_pow_right (by decide) hsum
      _ = Nat.pow 10 (digitCount digits - 1) * Nat.pow 10 e := Nat.pow_add 10 _ e
      _ ≤ digits * Nat.pow 10 e := Nat.mul_le_mul_right _ hdigits
  | negSucc e =>
    have hsum : k + (e + 1) ≤ digitCount digits - 1 := by
      dsimp only at h
      omega
    dsimp only [fraction]
    calc Nat.pow 10 k * Nat.pow 10 (e + 1) = Nat.pow 10 (k + (e + 1)) := (Nat.pow_add 10 _ _).symm
      _ ≤ Nat.pow 10 (digitCount digits - 1) := Nat.pow_le_pow_right (by decide) hsum
      _ ≤ digits := hdigits

/-- Where the point is far to the left, the decimal is small. -/
theorem fraction_lt {d : Decimal} {k : Nat} (h : (digitCount d.digits : Int) + d.exponent ≤ -k) :
    d.fraction.1 * Nat.pow 10 k < d.fraction.2 := by
  have hdigits := lt_pow_digitCount d.digits
  obtain ⟨negative, digits, exponent⟩ := d
  have hpos : 0 < digitCount digits := by
    unfold digitCount
    split <;> omega
  cases exponent with
  | ofNat e =>
    simp only [Int.ofNat_eq_natCast] at h
    omega
  | negSucc e =>
    have hsum : digitCount digits + k ≤ e + 1 := by
      dsimp only at h
      omega
    dsimp only [fraction]
    calc digits * Nat.pow 10 k < Nat.pow 10 (digitCount digits) * Nat.pow 10 k :=
          Nat.mul_lt_mul_of_pos_right hdigits (Nat.pow_pos (by decide))
      _ = Nat.pow 10 (digitCount digits + k) := (Nat.pow_add 10 _ _).symm
      _ ≤ Nat.pow 10 (e + 1) := Nat.pow_le_pow_right (by decide) hsum

/-- The places where a decimal is cut off make no difference. -/
theorem magnitude_eq (d : Decimal) :
    d.magnitude = Number.nearestBits d.fraction.1 d.fraction.2 := by
  by_cases hd : d.digits = 0
  · have hzero : d.fraction.1 = 0 := by
      unfold fraction
      rw [hd]
      split
      · exact Nat.zero_mul _
      · rfl
    rw [hzero, Number.nearestBits_zero]
    exact if_pos hd
  · by_cases hmost : 309 < (digitCount d.digits : Int) + d.exponent
    · have hlarge : Number.overflow * d.fraction.2 ≤ d.fraction.1 := by
        obtain ⟨k, hk, hpow⟩ : ∃ k, k = 309 ∧ Number.overflow ≤ Nat.pow 10 k :=
          ⟨309, rfl, by decide +kernel⟩
        exact Nat.le_trans (Nat.mul_le_mul_right _ hpow) (le_fraction hd (by omega))
      rw [Number.nearestBits_of_large d.fraction_den_pos hlarge]
      unfold magnitude
      dsimp only
      rw [if_neg hd, if_pos hmost]
    · by_cases hleast : (digitCount d.digits : Int) + d.exponent < -323
      · have hsmall : 2 * (d.fraction.1 * Number.unitsPerOne) < d.fraction.2 := by
          obtain ⟨k, hk, hpow⟩ : ∃ k, k = 324 ∧ 2 * Number.unitsPerOne ≤ Nat.pow 10 k :=
            ⟨324, rfl, by decide +kernel⟩
          rw [Nat.mul_left_comm]
          exact Nat.lt_of_le_of_lt (Nat.mul_le_mul_left _ hpow) (fraction_lt (by omega))
        rw [Number.nearestBits_of_small hsmall]
        unfold magnitude
        dsimp only
        rw [if_neg hd, if_neg hmost, if_pos hleast]
      · exact magnitude_eq_nearest hd (by omega) (by omega)

/-- The exact value of a decimal. -/
def value (d : Decimal) : ℚ := Number.signedRat d.negative (d.fraction.1 / d.fraction.2)

/-- A decimal is read as the double nearest to it, with its sign. -/
theorem isNearestTo_toFloat (d : Decimal) :
    Number.IsNearestTo d.value d.toFloat ∧ Number.isNegative d.toFloat = d.negative := by
  rw [toFloat_eq, magnitude_eq]
  have h : Number.IsNearestBits d.fraction.1 d.fraction.2 _ :=
    Number.isNearestBits_nearestBits d.fraction_den_pos
  exact ⟨h.isNearestTo d.fraction_den_pos d.negative,
    Number.isNegative_withSign d.negative h.le⟩

theorem cast_pow_ten (n : Nat) : ((Nat.pow 10 n : Nat) : ℚ) = 10 ^ n := by
  rw [Nat.pow_eq, Nat.cast_pow, Nat.cast_ofNat]

theorem value_neg (negative : Bool) (digits n : Nat) :
    value ⟨negative, digits, -n⟩ = Number.signedRat negative (digits / 10 ^ n) := by
  unfold value
  cases n with
  | zero =>
    show Number.signedRat negative ((digits * 1 : Nat) / (1 : Nat)) = _
    rw [Nat.mul_one, Nat.cast_one, pow_zero]
  | succ n =>
    rw [fraction_neg negative digits (Nat.succ_pos n)]
    dsimp only
    rw [cast_pow_ten]

end Decimal

/-! ## Texts -/

namespace Numeral

/-- A sign in front of a number, or none, and whether it is a minus. -/
inductive IsSign : Text → Bool → Prop
  | none : IsSign [] false
  | plus : IsSign [Decimal.plus] false
  | minus : IsSign [Decimal.minus] true

/-- A point with digits behind it, or neither, and the digits. -/
inductive IsFraction : Text → Text → Prop
  | none : IsFraction [] []
  | pointed {fs : Text} (hf : Digits fs) : IsFraction (Decimal.point :: fs) fs

/-- An optional sign, digits and an optional fraction: whether the sign is a minus, and the value
without it. -/
inductive IsFixed : Text → Bool → ℚ → Prop
  | mk {sign ds p fs : Text} {negative : Bool} (hs : IsSign sign negative) (hd : Digits ds)
      (hne : ds ≠ []) (hp : IsFraction p fs) :
      IsFixed (sign ++ (ds ++ p)) negative
        (Decimal.digitsValue ds + Decimal.digitsValue fs / 10 ^ fs.length)

variable {sign ds p fs : Text} {negative : Bool}

theorem IsFraction.isMantissa (hp : IsFraction p fs) (hd : Digits ds) (hne : ds ≠ []) :
    IsMantissa (ds ++ p) := by
  cases hp with
  | none =>
    rw [List.append_nil]
    exact .whole hd hne
  | pointed hf => exact .pointed hd hf (Or.inl hne)

theorem IsFraction.isDigit_head? (hp : IsFraction p fs) : ∀ u ∈ p.head?, u.isDigit = false := by
  cases hp with
  | none =>
    intro u hu
    cases hu
  | pointed hf =>
    intro u hu
    cases hu
    exact isDigit_point

theorem IsFraction.takeFraction (hp : IsFraction p fs) : Decimal.takeFraction p = (fs, []) := by
  cases hp with
  | none => rfl
  | pointed hf =>
    have htake : fs.takeWhile CodeUnit.isDigit = fs := by
      simpa using Text.takeWhile_append_stop (t := []) hf (by simp)
    have hdrop : fs.dropWhile CodeUnit.isDigit = [] := by
      simpa using Text.dropWhile_append_stop (t := []) hf (by simp)
    rw [Decimal.takeFraction, if_pos (beq_self_eq_true _), htake, hdrop]

theorem IsSign.takeSign (hs : IsSign sign negative) (hd : Digits ds) (hne : ds ≠ []) (p : Text) :
    Decimal.takeSign (sign ++ (ds ++ p)) = (negative, ds ++ p) := by
  cases hs with
  | none =>
    obtain ⟨u, rest, rfl⟩ := List.exists_cons_of_ne_nil hne
    exact if_neg (by rw [isSign_of_isDigit (hd u List.mem_cons_self)]; exact Bool.false_ne_true)
  | plus => rfl
  | minus => rfl

theorem IsSign.isPart (hs : IsSign sign negative) {u : CodeUnit} (hu : u ∈ sign) :
    Numeral.isPart u = true := by
  cases hs with
  | none => cases hu
  | plus =>
    rw [List.mem_singleton.1 hu]
    decide
  | minus =>
    rw [List.mem_singleton.1 hu]
    decide

/-- A text that begins like a number without a letter for its base. -/
theorem read?_eq_readSigned? (hs : IsSign sign negative) (hd : Digits ds) (hne : ds ≠ [])
    (hp : IsFraction p fs) :
    Number.read? (sign ++ (ds ++ p)) = Number.readSigned? (sign ++ (ds ++ p)) := by
  have hblank : ∀ u ∈ sign ++ (ds ++ p), u.isBlank = false := by
    intro u hu
    rcases List.mem_append.1 hu with hu | hu
    · exact isBlank_of_isPart (hs.isPart hu)
    · exact isBlank_of_isPart ((hp.isMantissa hd hne).isPart hu)
  obtain ⟨u, rest, rfl⟩ := List.exists_cons_of_ne_nil hne
  unfold Number.read?
  rw [Text.trim_of_not_isBlank hblank]
  cases hs with
  | none =>
    -- The second unit is a digit or the point.
    have hbase : ∀ v ∈ (rest ++ p).head?, Number.baseOf? v = none := by
      intro v hv
      cases rest with
      | nil =>
        cases hp with
        | none => cases hv
        | pointed hf =>
          cases hv
          decide
      | cons w rest =>
        cases hv
        exact Number.baseOf?_of_isDigit (hd v (List.mem_cons_of_mem u List.mem_cons_self))
    rw [List.nil_append, List.cons_append]
    generalize rest ++ p = more at hbase ⊢
    cases more with
    | nil => rfl
    | cons v more =>
      dsimp only
      rw [hbase v rfl, ite_self]
  | plus => rfl
  | minus => rfl

theorem read?_fixed (hs : IsSign sign negative) (hd : Digits ds) (hne : ds ≠ [])
    (hp : IsFraction p fs) : Number.read? (sign ++ (ds ++ p)) =
      some (Decimal.toFloat ⟨negative, Decimal.digitsValue (ds ++ fs), -fs.length⟩) := by
  have hmantissa := hp.isMantissa hd hne
  have hlength : length (ds ++ p) = (ds ++ p).length := by
    have hle := length_append (.plain hmantissa) []
    rw [List.append_nil] at hle
    exact Nat.le_antisymm (length_le _) hle
  have hinfinity : ds ++ p ≠ Number.infinityText := by
    obtain ⟨u, rest, rfl⟩ := List.exists_cons_of_ne_nil hne
    intro h
    have hu : u = 0x49 := by
      have hhead := congrArg List.head? h
      exact Option.some.inj hhead
    have hdigit := hd u List.mem_cons_self
    rw [hu] at hdigit
    exact absurd hdigit (by decide)
  have hread : Decimal.read (sign ++ (ds ++ p)) =
      ⟨negative, Decimal.digitsValue (ds ++ fs), -fs.length⟩ := by
    unfold Decimal.read
    rw [hs.takeSign hd hne p]
    dsimp only
    rw [Text.takeWhile_append_stop hd hp.isDigit_head?,
      Text.dropWhile_append_stop hd hp.isDigit_head?, hp.takeFraction]
    dsimp only [Decimal.readExponent]
    rw [Int.zero_sub]
  rw [read?_eq_readSigned? hs hd hne hp]
  unfold Number.readSigned?
  rw [hs.takeSign hd hne p]
  dsimp only
  rw [if_neg hinfinity, if_pos ⟨hmantissa.ne_nil, hlength⟩, hread]

/-- A number without an exponent is read as the double nearest to it, with its sign. -/
theorem IsFixed.exists_read? {t : Text} {v : ℚ} (h : IsFixed t negative v) :
    ∃ x, Number.read? t = some x ∧ Number.IsNearestTo (Number.signedRat negative v) x ∧
      Number.isNegative x = negative := by
  cases h with
  | @mk sign ds p fs _ hs hd hne hp =>
    obtain ⟨hnearest, hsign⟩ := Decimal.isNearestTo_toFloat
      ⟨negative, Decimal.digitsValue (ds ++ fs), -fs.length⟩
    refine ⟨_, read?_fixed hs hd hne hp, ?_, hsign⟩
    have hten : (10 : ℚ) ^ fs.length ≠ 0 := pow_ne_zero _ (by norm_num)
    have hvalue : (Decimal.digitsValue (ds ++ fs) : ℚ) / 10 ^ fs.length =
        Decimal.digitsValue ds + Decimal.digitsValue fs / 10 ^ fs.length := by
      rw [Decimal.digitsValue_append, Nat.cast_add, Nat.cast_mul, Decimal.cast_pow_ten, add_div,
        mul_div_cancel_right₀ _ hten]
    rwa [Decimal.value_neg, hvalue] at hnearest

end Numeral

end VirtualChannels
