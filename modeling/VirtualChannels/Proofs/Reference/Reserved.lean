import VirtualChannels.Proofs.Reference.Substitution

/-
  Reserved names. Those reserved by default are the functions and constants in any letter case
  (`isReserved_default_iff`), and no identifier put in for a reference is one of them
  (`isReserved_identifier`): it has an underscore, which none of their names has, or it is the
  matched text itself, which is a name that is not reserved.
-/

namespace VirtualChannels

open Formula

theorem isReserved_default_iff {n : Text} : ScanOptions.isReserved {} n = true ↔
    (Builtin.find? n).isSome = true ∨ (Constant.find? n).isSome = true := by
  rw [ScanOptions.isReserved, List.contains_iff_mem]
  show n.lowerAscii ∈ builtinNames ↔ _
  rw [builtinNames, List.mem_append, List.mem_map, List.mem_map, Builtin.find?, Constant.find?,
    List.find?_isSome, List.find?_isSome]
  simp only [beq_iff_eq]

theorem mem_lowerAscii_of_underscore {t : Text} (h : Text.underscore ∈ t) :
    Text.underscore ∈ t.lowerAscii :=
  List.mem_map.2 ⟨_, h, by decide⟩

theorem isReserved_of_underscore {t : Text} (h : Text.underscore ∈ t) :
    ScanOptions.isReserved {} t = false := by
  rw [← Bool.not_eq_true, ScanOptions.isReserved, List.contains_iff_mem]
  intro hm
  have hnone : ∀ n ∈ builtinNames, Text.underscore ∉ n := by decide
  exact hnone _ hm (mem_lowerAscii_of_underscore h)

namespace Segment

theorem named_eq_reference {o : ScanOptions} {identifier tail : Text} {r : Reference}
    (h : Segment.named o identifier tail = .reference r) :
    o.isReserved identifier = false ∧
      r.matched = identifier ++ tail.take (Shift.suffix tail).length := by
  have htext := text_named o identifier tail
  rw [h, text_reference] at htext
  refine ⟨?_, htext⟩
  unfold Segment.named at h
  dsimp only at h
  split at h
  · cases h
  · rename_i hr
    exact Bool.eq_false_iff.2 hr

/-- A reference that is matched by an identifier is no reserved name. -/
theorem Scanned.isReserved_matched {o : ScanOptions} {s : Segment} {x : Text}
    (h : Scanned o s x) {r : Reference} (hs : s = .reference r) (hid : r.matched.IsIdentifier) :
    o.isReserved r.matched = false := by
  cases h with
  | mark | emptyPair | numeral | point | unit => cases hs
  | quoted tail hne hname =>
    cases hs
    obtain ⟨u, rest, e, hu, -⟩ := hid
    cases e
    exact absurd hu (by decide)
  | @named identifier tail hi htail =>
    obtain ⟨hr, e⟩ := named_eq_reference hs
    rw [e] at hid ⊢
    rw [suffix_length_of_isIdentifier htail hid, List.take_zero, List.append_nil]
    exact hr

end Segment

theorem Text.SharesOnset.eq_or_underscore {t s : Text} (h : SharesOnset t s) :
    s = t ∨ Text.underscore ∈ s := by
  obtain ⟨common, restT, restS, rfl, rfl, ⟨rfl, rfl⟩ | hr⟩ := h
  · exact Or.inl rfl
  · exact Or.inr (List.mem_append_right _ (List.mem_of_mem_head? hr))

/-- Where functions and constants are reserved, the identifier of a reference is the name of
none. -/
theorem isReserved_fresh {o : ScanOptions} (ho : ∀ n ∈ builtinNames, n ∈ o.reserved)
    {formula : Text} {r : Reference} (hr : r ∈ references o formula) (used : List Text) :
    ScanOptions.isReserved {} (Identifier.fresh used r.matched.toIdentifier) = false := by
  obtain ⟨x, hx⟩ := Segment.Scanned.of_mem (mem_references.1 hr)
  obtain ⟨u, rest, hu, hd⟩ := hx.head_matched rfl
  have honset := Identifier.fresh_onset rest used hd
  rw [← hu] at honset
  rcases honset.eq_or_underscore with heq | hunderscore
  · have hid := Identifier.isIdentifier_fresh used r.matched
    rw [heq] at hid ⊢
    have hfree := hx.isReserved_matched rfl hid
    refine Bool.eq_false_iff.2 fun hreserved => Bool.eq_false_iff.1 hfree ?_
    exact List.contains_iff_mem.2 (ho _ (List.contains_iff_mem.1 hreserved))
  · exact isReserved_of_underscore hunderscore

/-- No identifier put in for a reference of a formula is that of a function or constant. -/
theorem isReserved_identifier {formula identifier : Text} {r : Reference}
    (hr : r ∈ references {} formula)
    (h : (substitute {} formula).identifiers.get? r.matched = some identifier) :
    ScanOptions.isReserved {} identifier = false := by
  obtain ⟨used, hfresh⟩ := Identifier.assign_fresh _ _ (Assignment.mem_of_get?_eq_some h)
  have hfresh : identifier = Identifier.fresh used r.matched.toIdentifier := hfresh
  rw [hfresh]
  exact isReserved_fresh (fun _ hn => hn) hr used

end VirtualChannels
