import VirtualChannels.Number.Decimal

/-
  The decimal digits of a number: they are digits, they read as the number again
  (`digitsValue_digitText`), and only zero is written with a zero first (`head_digitText`).
-/

namespace VirtualChannels.Decimal

theorem toNat_digit {k : Nat} (h : k < 10) : ((0x30 + k).toUInt16).toNat = 0x30 + k := by
  simp only [Nat.toUInt16_eq, UInt16.toNat_ofNat']
  omega

theorem digitValue_digit {k : Nat} (h : k < 10) :
    CodeUnit.digitValue (0x30 + k).toUInt16 = k := by
  rw [CodeUnit.digitValue, toNat_digit h]
  omega

theorem isDigit_digit {k : Nat} (h : k < 10) : CodeUnit.isDigit (0x30 + k).toUInt16 = true := by
  simp only [CodeUnit.isDigit, Bool.and_eq_true, decide_eq_true_eq, UInt16.le_iff_toNat_le,
    toNat_digit h]
  exact ⟨Nat.le_add_right _ _, by simp; omega⟩

theorem foldl_digitValue (n : Nat) (t : Text) :
    t.foldl (fun n u => 10 * n + u.digitValue) n = n * Nat.pow 10 t.length + digitsValue t := by
  induction t generalizing n with
  | nil => exact (Nat.mul_one n).symm
  | cons u t ih =>
    have hpow : Nat.pow 10 (t.length + 1) = 10 * Nat.pow 10 t.length := Nat.mul_comm _ _
    have hcons : digitsValue (u :: t) = u.digitValue * Nat.pow 10 t.length + digitsValue t := by
      rw [digitsValue, List.foldl_cons, ih, Nat.mul_zero, Nat.zero_add]
    rw [List.foldl_cons, ih, hcons, List.length_cons, hpow, Nat.add_mul, Nat.mul_assoc,
      Nat.mul_left_comm n, Nat.add_assoc]

theorem digitsValue_append (s t : Text) :
    digitsValue (s ++ t) = digitsValue s * Nat.pow 10 t.length + digitsValue t := by
  rw [digitsValue, List.foldl_append, foldl_digitValue]
  rfl

theorem digitsValue_append_singleton (t : Text) (u : CodeUnit) :
    digitsValue (t ++ [u]) = 10 * digitsValue t + u.digitValue := by
  simp [digitsValue]

theorem digitsValue_zeros (n : Nat) : digitsValue (Layout.zeros n) = 0 := by
  induction n with
  | zero => rfl
  | succ n ih =>
    show digitsValue (List.replicate (n + 1) 0x30) = 0
    rw [List.replicate_succ', digitsValue_append_singleton]
    show 10 * digitsValue (Layout.zeros n) + 0 = 0
    rw [ih]

/-- The digits of a number read as the number. -/
theorem digitsValue_digitText (n : Nat) : digitsValue (digitText n) = n := by
  fun_induction digitText n with
  | case1 n h =>
    rw [digitsValue, List.foldl_cons, List.foldl_nil, digitValue_digit h]
    omega
  | case2 n h ih =>
    rw [digitsValue_append_singleton, ih, digitValue_digit (Nat.mod_lt _ (by decide))]
    omega

theorem digitText_injective {m n : Nat} (h : digitText m = digitText n) : m = n := by
  rw [← digitsValue_digitText m, h, digitsValue_digitText]

theorem isDigit_of_mem_digitText {n : Nat} {u : CodeUnit} (h : u ∈ digitText n) :
    u.isDigit = true := by
  fun_induction digitText n with
  | case1 n hn =>
    rw [List.mem_singleton.1 h]
    exact isDigit_digit hn
  | case2 n hn ih =>
    rcases List.mem_append.1 h with h | h
    · exact ih h
    · rw [List.mem_singleton.1 h]
      exact isDigit_digit (Nat.mod_lt _ (by decide))

theorem digitText_ne_nil (n : Nat) : digitText n ≠ [] := by
  unfold digitText
  split
  · exact List.cons_ne_nil _ _
  · exact List.append_ne_nil_of_right_ne_nil _ (List.cons_ne_nil _ _)

/-- Only zero is written with a zero first. -/
theorem head_digitText {n : Nat} (h : n ≠ 0) : (digitText n).head? ≠ some 0x30 := by
  fun_induction digitText n with
  | case1 n hn =>
    intro e
    have hvalue := digitValue_digit hn
    rw [List.head?_cons, Option.some.injEq] at e
    rw [e] at hvalue
    exact h hvalue.symm
  | case2 n hn ih =>
    have hrest := ih (by omega)
    obtain ⟨u, more, hu⟩ := List.exists_cons_of_ne_nil (digitText_ne_nil (n / 10))
    rw [hu] at hrest ⊢
    exact hrest

end VirtualChannels.Decimal
