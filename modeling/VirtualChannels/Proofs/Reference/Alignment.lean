import Mathlib.Data.List.Chain
import VirtualChannels.Proofs.Reference.Extraction
import VirtualChannels.Proofs.Reference.Substitution
import VirtualChannels.Proofs.Text.Utf8

/-
  Identifiers that are as long as what they stand for. Of a text without surrogate pairs the
  identifier is made unit by unit (`Text.toIdentifier_eq_map`). Where this holds of all
  references and none has to be numbered, the text with identifiers is as long as the formula,
  the identifiers fill the spans of the occurrences, and everything else stands where it stood
  (`aligned_substitute`).
-/

namespace VirtualChannels

/-! ## Unit by unit -/

theorem CodeUnit.isHighSurrogate_of_continuesIdentifier {u : CodeUnit}
    (h : u.continuesIdentifier = true) : u.isHighSurrogate = false := by
  rw [Bool.eq_false_iff, ne_eq, isHighSurrogate_iff]
  rcases Bool.or_eq_true_iff.1 h with hs | hd
  · have hrange := startsIdentifier_iff.1 hs
    omega
  · have hrange := isDigit_iff.1 hd
    omega

namespace Text

/-- No character of the text takes two units. -/
def Pairless (t : Text) : Prop :=
  t.IsChain fun u v => (u.isHighSurrogate && v.isLowSurrogate) = false

instance (t : Text) : Decidable (Pairless t) :=
  inferInstanceAs (Decidable (t.IsChain fun u v => (u.isHighSurrogate && v.isLowSurrogate) = false))

theorem underscored_eq_map {t : Text} (h : Pairless t) : underscored t = t.map plainUnit := by
  fun_induction underscored t with
  | case1 => rfl
  | case2 u => rfl
  | case3 u v rest hp ih =>
    rw [(List.isChain_cons_cons.1 h).1] at hp
    cases hp
  | case4 u v rest hp ih => exact congrArg _ (ih (List.isChain_cons_cons.1 h).2)

/-- Of a text without surrogate pairs the identifier is made unit by unit. -/
theorem toIdentifier_eq_map {u : CodeUnit} {rest : Text} (hu : u.isDigit = false)
    (h : Pairless (u :: rest)) : toIdentifier (u :: rest) = (u :: rest).map plainUnit := by
  have hd : ((u :: rest).map plainUnit).head?.all CodeUnit.isDigit = false := isDigit_plainUnit hu
  rw [toIdentifier, underscored_eq_map h, if_neg (by rw [hd]; decide)]

theorem plainUnit_of_continues {u : CodeUnit} (h : u.continuesIdentifier = true) :
    plainUnit u = u := by
  unfold plainUnit
  split
  · rfl
  · rename_i hnot
    simp only [CodeUnit.continuesIdentifier, CodeUnit.startsIdentifier, Bool.or_eq_true,
      beq_iff_eq] at h hnot
    have hu : u = underscore := by tauto
    exact hu.symm

theorem IsIdentifier.pairless {t : Text} (h : IsIdentifier t) : Pairless t := by
  have hall : ∀ u ∈ t, u.isHighSurrogate = false := fun u hu =>
    CodeUnit.isHighSurrogate_of_continuesIdentifier (h.continues hu)
  clear h
  induction t with
  | nil => exact .nil
  | cons u t ih =>
    refine List.isChain_cons.2 ⟨fun v _ => ?_, ih fun v hv => hall v (List.mem_cons_of_mem u hv)⟩
    rw [hall u List.mem_cons_self, Bool.false_and]

theorem IsIdentifier.map_plainUnit {t : Text} (h : IsIdentifier t) : t.map plainUnit = t :=
  (List.map_congr_left fun _ hu => plainUnit_of_continues (h.continues hu)).trans (List.map_id t)

/-- An identifier is its own. -/
theorem IsIdentifier.toIdentifier_eq {t : Text} (h : IsIdentifier t) : t.toIdentifier = t := by
  have hpairless := h.pairless
  have hmap := h.map_plainUnit
  obtain ⟨u, rest, rfl, hu, -⟩ := h
  rw [toIdentifier_eq_map (CodeUnit.isDigit_eq_false hu) hpairless, hmap]

end Text

/-! ## Segments unit by unit -/

namespace Segment

/-- The text of a segment, in which that of a reference is made an identifier unit by unit. -/
def aligned : Segment → Text
  | plain t => t
  | reference r => r.matched.map Text.plainUnit

theorem length_aligned (s : Segment) : s.aligned.length = s.text.length := by
  cases s with
  | plain t => rfl
  | reference r => exact List.length_map _

theorem length_flatMap_aligned (ss : List Segment) :
    (ss.flatMap aligned).length = (ss.flatMap text).length := by
  induction ss with
  | nil => rfl
  | cons s ss ih =>
    rw [List.flatMap_cons, List.flatMap_cons, List.length_append, List.length_append,
      length_aligned, ih]

/-- A unit stays where no occurrence is, and becomes one of an identifier where one is. -/
theorem getElem?_flatMap_aligned (ss : List Segment) (position i : Nat) :
    (∃ c ∈ Occurrence.ofSegments position ss, c.start ≤ position + i ∧ position + i < c.stop ∧
      (ss.flatMap aligned)[i]? = (ss.flatMap text)[i]?.map Text.plainUnit) ∨
    (ss.flatMap aligned)[i]? = (ss.flatMap text)[i]? := by
  induction ss generalizing position i with
  | nil => exact Or.inr rfl
  | cons s ss ih =>
    rw [List.flatMap_cons, List.flatMap_cons]
    -- The unit is one of the first segment, or one of those behind it.
    by_cases hi : i < s.text.length
    · rw [List.getElem?_append_left hi, List.getElem?_append_left (s.length_aligned.symm ▸ hi)]
      cases s with
      | plain t => exact Or.inr rfl
      | reference r =>
        refine Or.inl ⟨_, List.mem_cons_self, Nat.le_add_right _ _, Nat.add_lt_add_left hi _, ?_⟩
        exact List.getElem?_map
    · have hge := Nat.le_of_not_lt hi
      rw [List.getElem?_append_right hge,
        List.getElem?_append_right (s.length_aligned.symm ▸ hge), length_aligned]
      refine (ih (position + s.text.length) (i - s.text.length)).imp_left ?_
      rintro ⟨c, hc, hstart, hstop, heq⟩
      exact ⟨c, Occurrence.mem_ofSegments_cons.2 (Or.inr hc), by omega, by omega, heq⟩

theorem aligned_prefix_of_mem {ss : List Segment} {position : Nat} {c : Occurrence}
    (h : c ∈ Occurrence.ofSegments position ss) :
    c.reference.matched.map Text.plainUnit <+: (ss.flatMap aligned).drop (c.start - position) ∧
      c.stop = c.start + c.reference.matched.length := by
  induction ss generalizing position with
  | nil => cases h
  | cons s ss ih =>
    rw [List.flatMap_cons]
    rcases Occurrence.mem_ofSegments_cons.1 h with ⟨r, rfl, rfl⟩ | h
    · rw [Nat.sub_self, List.drop_zero]
      exact ⟨List.prefix_append _ _, rfl⟩
    · have hle := Occurrence.le_start_of_mem h
      have hlength := s.length_aligned
      rw [List.drop_append, List.drop_eq_nil_of_le (by omega), List.nil_append, hlength,
        ← Nat.sub_add_eq]
      exact ih h

end Segment

/-! ## Formulas -/

/-- No two matched texts of the formula make the same identifier, and none has a character of two
units. -/
structure Alignable (o : ScanOptions) (formula : Text) : Prop where
  distinct : ∀ r ∈ references o formula, ∀ s ∈ references o formula,
    r.matched.toIdentifier = s.matched.toIdentifier → r.matched = s.matched
  pairless : ∀ r ∈ references o formula, r.matched.Pairless

/-- Each identifier fills the span of its occurrence, and all else stands where it stood. -/
structure Substituted.Aligned (o : ScanOptions) (formula : Text) (s : Substituted) : Prop where
  length_eq : s.text.length = formula.length
  fills : ∀ c ∈ occurrences o formula, ∃ identifier,
    s.identifiers.get? c.reference.matched = some identifier ∧
      c.start + identifier.length = c.stop ∧ identifier <+: s.text.drop c.start
  outside : ∀ i, (∀ c ∈ occurrences o formula, ¬(c.start ≤ i ∧ i < c.stop)) →
    s.text[i]? = formula[i]?

namespace Alignable

variable {o : ScanOptions} {formula : Text}

theorem get?_identifiers (h : Alignable o formula) {r : Reference} (hr : r ∈ references o formula) :
    (substitute o formula).identifiers.get? r.matched = some (r.matched.map Text.plainUnit) := by
  obtain ⟨identifier, hi⟩ := exists_identifier r hr
  have hidentifier : identifier = r.matched.toIdentifier := by
    refine Identifier.eq_toIdentifier_of_assign ?_ _ (Assignment.mem_of_get?_eq_some hi)
    intro m hm n hn heq
    obtain ⟨r, hr, rfl⟩ := List.mem_map.1 hm
    obtain ⟨s, hs, rfl⟩ := List.mem_map.1 hn
    exact h.distinct r hr s hs heq
  obtain ⟨u, rest, hu, hd⟩ := head_matched_of_mem_references hr
  have hpairless := h.pairless r hr
  rw [hu] at hpairless
  have hmap := Text.toIdentifier_eq_map hd hpairless
  rw [← hu] at hmap
  rw [hi, hidentifier, hmap]

theorem text_eq (h : Alignable o formula) :
    (substitute o formula).text = (segments o formula).flatMap Segment.aligned := by
  refine List.flatMap_congr fun s hs => ?_
  cases s with
  | plain t => rfl
  | reference r =>
    have hidentifier := h.get?_identifiers (mem_references.2 hs)
    exact congrArg (Option.getD · _) hidentifier

/-- A unit stays where no occurrence is, and becomes one of an identifier where one is. -/
theorem getElem?_text (h : Alignable o formula) (i : Nat) :
    (∃ c ∈ occurrences o formula, c.start ≤ i ∧ i < c.stop ∧
      (substitute o formula).text[i]? = formula[i]?.map Text.plainUnit) ∨
    (substitute o formula).text[i]? = formula[i]? := by
  have hunit := Segment.getElem?_flatMap_aligned (segments o formula) 0 i
  rwa [← h.text_eq, flatMap_segments, Nat.zero_add] at hunit

end Alignable

theorem aligned_substitute {o : ScanOptions} {formula : Text} (h : Alignable o formula) :
    (substitute o formula).Aligned o formula where
  length_eq := by rw [h.text_eq, Segment.length_flatMap_aligned, flatMap_segments]
  fills c hc := by
    have href := mem_references_iff.2 ⟨c, hc, rfl⟩
    obtain ⟨hstands, hstop⟩ := Segment.aligned_prefix_of_mem hc
    rw [Nat.sub_zero, ← h.text_eq] at hstands
    exact ⟨_, h.get?_identifiers href, by rw [List.length_map, hstop], hstands⟩
  outside i hi := by
    refine (h.getElem?_text i).resolve_left ?_
    rintro ⟨c, hc, hstart, hstop, -⟩
    exact hi c hc ⟨hstart, hstop⟩

end VirtualChannels
