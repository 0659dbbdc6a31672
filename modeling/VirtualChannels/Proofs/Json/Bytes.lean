import VirtualChannels.Proofs.Json.RoundTrip
import VirtualChannels.Proofs.Text.Utf8

/-
  JSON in bytes. No surrogate stands alone in what is written, whatever is in the texts of the
  value (`paired_write`), so that nothing is lost on the way through bytes
  (`parse_decode_encode_write`).
-/

namespace VirtualChannels.Json

open Text (Paired paired_of_all paired_of_forall isSurrogate)

/-- Units of the first block are no surrogates. -/
theorem isSurrogate_eq_false {u : CodeUnit} (h : u.toNat < 0xD800) :
    isSurrogate u.toNat = false := by
  rw [Bool.eq_false_iff, ne_eq, Text.isSurrogate_iff]
  omega

/-! ## Numbers -/

theorem isSurrogate_of_isPart {u : CodeUnit} (h : Numeral.isPart u = true) :
    isSurrogate u.toNat = false := by
  apply isSurrogate_eq_false
  simp only [Numeral.isPart, CodeUnit.isDigit, Decimal.isExponentMark, Decimal.isSign,
    Bool.or_eq_true, Bool.and_eq_true, decide_eq_true_eq, beq_iff_eq,
    UInt16.le_iff_toNat_le] at h
  rcases h with ((h | rfl) | rfl | rfl) | rfl | rfl
  · simp only [UInt16.reduceToNat] at h
    omega
  all_goals decide

theorem isPart_of_mem_text (p : Numeral.Parts) {u : CodeUnit} (hu : u ∈ p.text) :
    Numeral.isPart u = true := by
  have hdigits {ds : Text} (hd : Numeral.Digits ds) (h : u ∈ ds) : Numeral.isPart u = true :=
    Numeral.isPart_of_isDigit (hd u h)
  unfold Numeral.Parts.text Numeral.Parts.signText Numeral.Parts.fractionText
    Numeral.Parts.exponentText at hu
  rcases List.mem_append.1 hu with hu | hu
  · split at hu
    · rw [List.mem_singleton.1 hu]
      decide
    · cases hu
  · rcases List.mem_append.1 hu with hu | hu
    · exact hdigits p.digits_whole hu
    · rcases List.mem_append.1 hu with hu | hu
      · split at hu
        · cases hu
        · rcases List.mem_cons.1 hu with rfl | hu
          · decide
          · exact hdigits p.digits_fraction hu
      · split at hu
        · rename_i e _
          obtain ⟨sign, he, hsign⟩ := Numeral.Parts.exists_exponentText_cons e
          rw [he] at hu
          rcases List.mem_cons.1 hu with rfl | hu
          · decide
          · rcases List.mem_cons.1 hu with rfl | hu
            · rw [hsign]
              split <;> decide
            · exact hdigits (Numeral.digits_digitText _) hu
        · cases hu

theorem paired_writeNumber (x : Float) : Paired (writeNumber x) := by
  unfold writeNumber
  split
  · rename_i hx
    obtain ⟨d, ⟨p, htext, -⟩, -⟩ := Number.exists_denotes_text hx
    rw [← htext]
    exact paired_of_forall fun u hu => isSurrogate_of_isPart (isPart_of_mem_text p hu)
  · exact paired_of_all (by decide)

/-! ## Texts -/

theorem paired_numberEscape (u : CodeUnit) : Paired (numberEscape u) := by
  have hdigit : ∀ n < 16, isSurrogate (hexDigit n).toNat = false := by decide
  have hlt : u.toNat < 0x10000 := u.toNat_lt
  unfold numberEscape
  refine .unit (by decide) (.unit (by decide) (.unit (hdigit _ (by omega)) (.unit
    (hdigit _ (by omega)) (.unit (hdigit _ (by omega)) (.unit (hdigit _ (by omega)) .nil)))))

theorem paired_writeUnit (u : CodeUnit) : Paired (writeUnit u) := by
  rcases writeUnit_cases u with ⟨v, -, hv, -, hw⟩ | hw | ⟨-, -, -, hhigh, hlow, hw⟩
  · rw [hw]
    exact .unit (by decide) (.unit (isSurrogate_eq_false (Nat.lt_trans hv (by decide))) .nil)
  · rw [hw]
    exact paired_numberEscape u
  · rw [hw]
    refine .unit ?_ .nil
    rw [Bool.eq_false_iff, ne_eq, CodeUnit.isHighSurrogate_iff] at hhigh
    rw [Bool.eq_false_iff, ne_eq, CodeUnit.isLowSurrogate_iff] at hlow
    rw [Bool.eq_false_iff, ne_eq, Text.isSurrogate_iff]
    omega

theorem paired_writeUnits (t : Text) : Paired (writeUnits t) := by
  fun_induction writeUnits t with
  | case1 => exact .nil
  | case2 u => exact paired_writeUnit u
  | case3 u v t hpair ih =>
    obtain ⟨hu, hv⟩ := Bool.and_eq_true_iff.1 hpair
    exact .pair hu hv ih
  | case4 u v t hpair ih => exact (paired_writeUnit u).append ih

theorem paired_writeText (t : Text) : Paired (writeText t) :=
  .unit (by decide) ((paired_writeUnits t).append (.unit (by decide) .nil))

/-! ## Values -/

theorem paired_lineStart (indent depth : Nat) : Paired (lineStart indent depth) := by
  unfold lineStart
  split
  · exact .nil
  · refine .unit (by decide) (paired_of_forall fun u hu => ?_)
    rw [List.eq_of_mem_replicate hu]
    decide

theorem paired_afterColon (indent : Nat) : Paired (afterColon indent) := by
  unfold afterColon
  split
  · exact .nil
  · exact .unit (by decide) .nil

mutual

/-- No surrogate stands alone in what is written. -/
theorem paired_write (indent depth : Nat) : ∀ v : Value, Paired (v.write indent depth)
  | .null => by
    rw [Value.write]
    exact paired_of_all (by decide)
  | .bool b => by
    rw [Value.write]
    cases b <;> exact paired_of_all (by decide)
  | .number x => by
    rw [Value.write]
    exact paired_writeNumber x
  | .text t => by
    rw [Value.write]
    exact paired_writeText t
  | .array [] => by
    rw [Value.write]
    exact paired_of_all (by decide)
  | .array (v :: rest) => by
    rw [Value.write]
    exact .unit (by decide) (((((paired_lineStart indent (depth + 1)).append
      (paired_write indent (depth + 1) v)).append
      (paired_writeItems indent (depth + 1) rest)).append
      (paired_lineStart indent depth)).append (.unit (by decide) .nil))
  | .object [] => by
    rw [Value.write]
    exact paired_of_all (by decide)
  | .object ((name, v) :: rest) => by
    rw [Value.write]
    exact .unit (by decide) (((paired_lineStart indent (depth + 1)).append
      (paired_writeText name)).append (.unit (by decide) (((((paired_afterColon indent).append
      (paired_write indent (depth + 1) v)).append
      (paired_writeFields indent (depth + 1) rest)).append
      (paired_lineStart indent depth)).append (.unit (by decide) .nil))))

theorem paired_writeItems (indent depth : Nat) :
    ∀ items : List Value, Paired (Value.writeItems indent depth items)
  | [] => by
    rw [Value.writeItems]
    exact .nil
  | v :: rest => by
    rw [Value.writeItems]
    exact .unit (by decide) (((paired_lineStart indent depth).append
      (paired_write indent depth v)).append (paired_writeItems indent depth rest))

theorem paired_writeFields (indent depth : Nat) :
    ∀ fields : List (Text × Value), Paired (Value.writeFields indent depth fields)
  | [] => by
    rw [Value.writeFields]
    exact .nil
  | (name, v) :: rest => by
    rw [Value.writeFields]
    exact .unit (by decide) (((paired_lineStart indent depth).append
      (paired_writeText name)).append (.unit (by decide) (((paired_afterColon indent).append
      (paired_write indent depth v)).append (paired_writeFields indent depth rest))))

end

/-- What is kept of a value is kept through bytes. -/
theorem parse_decode_encode_write (indent : Nat) (v : Value) :
    parse (Utf8.decode (Utf8.encode (v.write indent 0))) = .ok v.kept := by
  rw [Utf8.decode_encode (paired_write indent 0 v)]
  exact parse_write indent v

end VirtualChannels.Json
