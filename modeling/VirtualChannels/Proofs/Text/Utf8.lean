import VirtualChannels.Text.Basic

/-
  Reading the bytes of a text. What is read are the code points that were written
  (`decodeFrom_encode`), and they are those of the text unless a surrogate stands alone in it
  (`decode_encode`).
-/

namespace VirtualChannels

/-! ## Code points and units -/

namespace CodeUnit

theorem isHighSurrogate_iff {u : CodeUnit} :
    u.isHighSurrogate = true ↔ 0xD800 ≤ u.toNat ∧ u.toNat < 0xDC00 := by
  simp only [isHighSurrogate, Bool.and_eq_true, decide_eq_true_eq, UInt16.le_iff_toNat_le,
    UInt16.lt_iff_toNat_lt, UInt16.reduceToNat]

theorem isLowSurrogate_iff {u : CodeUnit} :
    u.isLowSurrogate = true ↔ 0xDC00 ≤ u.toNat ∧ u.toNat < 0xE000 := by
  simp only [isLowSurrogate, Bool.and_eq_true, decide_eq_true_eq, UInt16.le_iff_toNat_le,
    UInt16.lt_iff_toNat_lt, UInt16.reduceToNat]

end CodeUnit

namespace Text

/-- The most that a code point can be, and one. -/
def codePointBound : Nat := 0x110000

theorem isSurrogate_iff {n : Nat} : isSurrogate n = true ↔ 0xD800 ≤ n ∧ n < 0xE000 := by
  simp only [isSurrogate, Bool.and_eq_true, decide_eq_true_eq]

/-- Every surrogate in a text is part of a pair. -/
inductive Paired : Text → Prop
  | nil : Paired []
  | unit {u : CodeUnit} {t : Text} (hu : isSurrogate u.toNat = false) (ht : Paired t) :
      Paired (u :: t)
  | pair {u v : CodeUnit} {t : Text} (hu : u.isHighSurrogate = true)
      (hv : v.isLowSurrogate = true) (ht : Paired t) : Paired (u :: v :: t)

theorem Paired.append {s t : Text} (hs : Paired s) (ht : Paired t) : Paired (s ++ t) := by
  induction hs with
  | nil => exact ht
  | unit hu _ ih => exact .unit hu ih
  | pair hu hv _ ih => exact .pair hu hv ih

theorem paired_of_forall {t : Text} (h : ∀ u ∈ t, isSurrogate u.toNat = false) : Paired t := by
  induction t with
  | nil => exact .nil
  | cons u t ih =>
    exact .unit (h u List.mem_cons_self) (ih fun v hv => h v (List.mem_cons_of_mem u hv))

/-- The same as one test of the text, which computes on a text that is known. -/
theorem paired_of_all {t : Text} (h : (t.all fun u => !isSurrogate u.toNat) = true) :
    Paired t :=
  paired_of_forall fun u hu => by simpa using List.all_eq_true.1 h u hu

theorem codePoints_cons_of_not_high {u : CodeUnit} (hu : u.isHighSurrogate = false) (t : Text) :
    codePoints (u :: t) = u.toNat :: codePoints t := by
  cases t with
  | nil => rfl
  | cons v t =>
    rw [codePoints, hu, Bool.false_and]
    rfl

theorem codePoints_pair {u v : CodeUnit} (hu : u.isHighSurrogate = true)
    (hv : v.isLowSurrogate = true) (t : Text) :
    codePoints (u :: v :: t) = pairCodePoint u v :: codePoints t := by
  rw [codePoints, hu, hv]
  rfl

theorem pairCodePoint_bounds {u v : CodeUnit} (hu : u.isHighSurrogate = true)
    (hv : v.isLowSurrogate = true) :
    0x10000 ≤ pairCodePoint u v ∧ pairCodePoint u v < codePointBound := by
  rw [CodeUnit.isHighSurrogate_iff] at hu
  rw [CodeUnit.isLowSurrogate_iff] at hv
  unfold pairCodePoint codePointBound
  omega

theorem codePoints_lt (t : Text) : ∀ n ∈ t.codePoints, n < codePointBound := by
  have hunit (u : CodeUnit) : u.toNat < codePointBound :=
    Nat.lt_trans u.toNat_lt (by decide)
  fun_induction codePoints t with
  | case1 => exact fun _ h => nomatch h
  | case2 u => exact List.forall_mem_singleton.2 (hunit u)
  | case3 u v t hpair ih =>
    obtain ⟨hu, hv⟩ := Bool.and_eq_true_iff.1 hpair
    exact List.forall_mem_cons.2 ⟨(pairCodePoint_bounds hu hv).2, ih⟩
  | case4 u v t hpair ih => exact List.forall_mem_cons.2 ⟨hunit u, ih⟩

theorem Paired.isSurrogate_codePoints {t : Text} (h : Paired t) :
    ∀ n ∈ t.codePoints, isSurrogate n = false := by
  induction h with
  | nil => exact fun _ h => nomatch h
  | @unit u t hu _ ih =>
    have hhigh : u.isHighSurrogate = false := by
      refine Bool.eq_false_iff.2 fun hh => Bool.eq_false_iff.1 hu ?_
      rw [CodeUnit.isHighSurrogate_iff] at hh
      rw [isSurrogate_iff]
      omega
    rw [codePoints_cons_of_not_high hhigh]
    exact List.forall_mem_cons.2 ⟨hu, ih⟩
  | @pair u v t hu hv _ ih =>
    have hbounds := pairCodePoint_bounds hu hv
    rw [codePoints_pair hu hv]
    refine List.forall_mem_cons.2 ⟨Bool.eq_false_iff.2 fun hs => ?_, ih⟩
    rw [isSurrogate_iff] at hs
    omega

/-- The units of the code points of a text are the text. -/
theorem ofCodePoints_codePoints (t : Text) : ofCodePoints t.codePoints = t := by
  have hunit (u : CodeUnit) : ofCodePoint u.toNat = [u] := by
    unfold ofCodePoint
    rw [if_pos u.toNat_lt, Nat.toUInt16_eq, UInt16.ofNat_toNat]
  unfold ofCodePoints
  fun_induction codePoints t with
  | case1 => rfl
  | case2 u => rw [List.flatMap_singleton, hunit]
  | case3 u v t hpair ih =>
    obtain ⟨hu, hv⟩ := Bool.and_eq_true_iff.1 hpair
    have hbounds := pairCodePoint_bounds hu hv
    rw [CodeUnit.isHighSurrogate_iff] at hu
    rw [CodeUnit.isLowSurrogate_iff] at hv
    have hhigh : 0xD800 + (pairCodePoint u v - 0x10000) / 0x400 = u.toNat := by
      unfold pairCodePoint
      omega
    have hlow : 0xDC00 + (pairCodePoint u v - 0x10000) % 0x400 = v.toNat := by
      unfold pairCodePoint
      omega
    rw [List.flatMap_cons, ih, ofCodePoint, if_neg (by omega), hhigh, hlow, Nat.toUInt16_eq,
      Nat.toUInt16_eq, UInt16.ofNat_toNat, UInt16.ofNat_toNat]
    rfl
  | case4 u v t hpair ih =>
    rw [List.flatMap_cons, ih, hunit]
    rfl

end Text

/-! ## Bytes -/

namespace Utf8

theorem toNat_toUInt8 {n : Nat} (h : n < 0x100) : n.toUInt8.toNat = n := by
  rw [Nat.toUInt8_eq, UInt8.toNat_ofNat']
  exact Nat.mod_eq_of_lt h

theorem beq_toUInt8 {n : Nat} (h : n < 0x100) (c : UInt8) :
    (n.toUInt8 == c) = decide (n = c.toNat) := by
  rw [Bool.eq_iff_iff, beq_iff_eq, decide_eq_true_eq, ← UInt8.toNat_inj, toNat_toUInt8 h]

theorem lead_one {n : Nat} (h : n < 0x80) : lead n.toUInt8 = .inl n := by
  have hb := toNat_toUInt8 (show n < 0x100 by omega)
  unfold lead
  rw [if_pos (by rw [UInt8.lt_iff_toNat_lt, hb]; exact h), hb]

theorem lead_two {k : Nat} (h : 2 ≤ k) (h' : k < 0x20) :
    lead (0xC0 + k).toUInt8 = .inr ⟨k, 1, 0x80, 0xBF⟩ := by
  have hb := toNat_toUInt8 (show 0xC0 + k < 0x100 by omega)
  unfold lead
  simp only [UInt8.lt_iff_toNat_lt, UInt8.le_iff_toNat_le, hb, UInt8.reduceToNat]
  rw [if_neg (by omega), if_pos (by simp; omega), Nat.add_sub_cancel_left]

theorem lead_three {k : Nat} (h : k < 0x10) : lead (0xE0 + k).toUInt8 =
    .inr ⟨k, 2, if k = 0 then 0xA0 else 0x80, if k = 13 then 0x9F else 0xBF⟩ := by
  have hlt : 0xE0 + k < 0x100 := by omega
  have hb := toNat_toUInt8 hlt
  unfold lead
  simp only [UInt8.lt_iff_toNat_lt, UInt8.le_iff_toNat_le, hb, UInt8.reduceToNat,
    beq_toUInt8 hlt, decide_eq_true_eq]
  rw [if_neg (by omega), if_neg (by simp; omega), if_pos (by simp; omega), Nat.add_sub_cancel_left]
  simp only [show 0xE0 + k = 0xE0 ↔ k = 0 by omega, show 0xE0 + k = 0xED ↔ k = 13 by omega]

theorem lead_four {k : Nat} (h : k < 5) : lead (0xF0 + k).toUInt8 =
    .inr ⟨k, 3, if k = 0 then 0x90 else 0x80, if k = 4 then 0x8F else 0xBF⟩ := by
  have hlt : 0xF0 + k < 0x100 := by omega
  have hb := toNat_toUInt8 hlt
  unfold lead
  simp only [UInt8.lt_iff_toNat_lt, UInt8.le_iff_toNat_le, hb, UInt8.reduceToNat,
    beq_toUInt8 hlt, decide_eq_true_eq]
  rw [if_neg (by omega), if_neg (by simp; omega), if_neg (by simp; omega), if_pos (by simp; omega),
    Nat.add_sub_cancel_left]
  simp only [show 0xF0 + k = 0xF0 ↔ k = 0 by omega, show 0xF0 + k = 0xF4 ↔ k = 4 by omega]

section
variable {k : Nat} (hk : k < 0x40) (v : Nat) (bs : Bytes)

include hk

/-- A byte that goes on with a character, in the range that is asked for. -/
theorem decodeFrom_inRange (missing : Nat) {low high : UInt8} (hlow : low.toNat ≤ 0x80 + k)
    (hhigh : 0x80 + k ≤ high.toNat) :
    decodeFrom (some ⟨v, missing, low, high⟩) ((0x80 + k).toUInt8 :: bs) =
      if missing ≤ 1 then (v * 0x40 + k) :: decodeFrom none bs
      else decodeFrom (some ⟨v * 0x40 + k, missing - 1, 0x80, 0xBF⟩) bs := by
  have hb := toNat_toUInt8 (show 0x80 + k < 0x100 by omega)
  have hrange : (decide (low ≤ (0x80 + k).toUInt8) && decide ((0x80 + k).toUInt8 ≤ high))
      = true := by
    simp only [UInt8.le_iff_toNat_le, hb, Bool.and_eq_true, decide_eq_true_eq]
    exact ⟨hlow, hhigh⟩
  rw [decodeFrom.eq_def]
  dsimp only
  rw [if_pos hrange, hb, Nat.add_sub_cancel_left]

theorem decodeFrom_last : decodeFrom (some ⟨v, 1, 0x80, 0xBF⟩) ((0x80 + k).toUInt8 :: bs) =
    (v * 0x40 + k) :: decodeFrom none bs := by
  refine (decodeFrom_inRange hk v bs 1 ?_ ?_).trans (if_pos (Nat.le_refl 1))
  · exact Nat.le_add_right 0x80 k
  · show _ ≤ 0xBF
    omega

theorem decodeFrom_middle : decodeFrom (some ⟨v, 2, 0x80, 0xBF⟩) ((0x80 + k).toUInt8 :: bs) =
    decodeFrom (some ⟨v * 0x40 + k, 1, 0x80, 0xBF⟩) bs := by
  refine (decodeFrom_inRange hk v bs 2 ?_ ?_).trans (if_neg (by decide))
  · exact Nat.le_add_right 0x80 k
  · show _ ≤ 0xBF
    omega

end

/-- The bytes of a character are read as the character. -/
theorem decodeFrom_encodeScalar {n : Nat} (hn : n < Text.codePointBound)
    (hs : Text.isSurrogate n = false) (bs : Bytes) :
    decodeFrom none (encodeScalar n ++ bs) = n :: decodeFrom none bs := by
  unfold Text.codePointBound at hn
  rw [Bool.eq_false_iff, ne_eq, Text.isSurrogate_iff] at hs
  have hmod (m : Nat) : m % 0x40 < 0x40 := Nat.mod_lt _ (by decide)
  unfold encodeScalar
  split
  · rename_i h
    rw [List.cons_append, List.nil_append, decodeFrom, lead_one h]
  · split
    · rename_i h
      have hvalue : n / 0x40 * 0x40 + n % 0x40 = n := by omega
      rw [List.cons_append, List.cons_append, List.nil_append, decodeFrom,
        lead_two (by omega) (by omega)]
      dsimp only
      rw [decodeFrom_last (hmod n), hvalue]
    · split
      · rename_i h
        have hvalue : (n / 0x1000 * 0x40 + n / 0x40 % 0x40) * 0x40 + n % 0x40 = n := by omega
        simp only [List.cons_append, List.nil_append]
        rw [decodeFrom, lead_three (by omega)]
        dsimp only
        rw [decodeFrom_inRange (hmod _), if_neg (by decide), decodeFrom_last (hmod n), hvalue]
        · -- No shorter form, and no surrogate.
          split
          · show 0xA0 ≤ _
            omega
          · exact Nat.le_add_right 0x80 _
        · split
          · show _ ≤ 0x9F
            omega
          · show _ ≤ 0xBF
            omega
      · have hvalue : ((n / 0x40000 * 0x40 + n / 0x1000 % 0x40) * 0x40 + n / 0x40 % 0x40) * 0x40
            + n % 0x40 = n := by omega
        simp only [List.cons_append, List.nil_append]
        rw [decodeFrom, lead_four (by omega)]
        dsimp only
        rw [decodeFrom_inRange (hmod _), if_neg (by decide), decodeFrom_middle (hmod _),
          decodeFrom_last (hmod n), hvalue]
        · -- No shorter form, and nothing past the last code point.
          split
          · show 0x90 ≤ _
            omega
          · exact Nat.le_add_right 0x80 _
        · split
          · show _ ≤ 0x8F
            omega
          · show _ ≤ 0xBF
            omega

theorem decodeFrom_encode (t : Text) :
    decodeFrom none (encode t) = t.codePoints.map Text.scalar := by
  have hscalar (n : Nat) (hn : n < Text.codePointBound) :
      Text.scalar n < Text.codePointBound ∧ Text.isSurrogate (Text.scalar n) = false := by
    unfold Text.scalar
    split
    · exact ⟨by decide, by decide⟩
    · rename_i h
      exact ⟨hn, Bool.eq_false_iff.2 h⟩
  have hall := Text.codePoints_lt t
  unfold encode
  generalize t.codePoints = ns at hall
  induction ns with
  | nil => rfl
  | cons n ns ih =>
    obtain ⟨hn, hns⟩ := List.forall_mem_cons.1 hall
    obtain ⟨hlt, hs⟩ := hscalar n hn
    rw [List.flatMap_cons, decodeFrom_encodeScalar hlt hs, ih hns, List.map_cons]

/-- A text in which no surrogate stands alone is read as it was written. -/
theorem decode_encode {t : Text} (h : Text.Paired t) : decode (encode t) = t := by
  have hscalar : t.codePoints.map Text.scalar = t.codePoints := by
    refine (List.map_congr_left fun n hn => ?_).trans (List.map_id _)
    exact if_neg (Bool.eq_false_iff.1 (h.isSurrogate_codePoints n hn))
  unfold decode
  rw [decodeFrom_encode, hscalar, Text.ofCodePoints_codePoints]

end Utf8

end VirtualChannels
