import VirtualChannels.Proofs.Reference.Direct
import VirtualChannels.Proofs.Reference.Spans

/-
  Formulas whose references stand apart from letters, digits, underscores and each other. In
  such a formula no reference touches a neighbour (`Isolated.untouched`).
-/

namespace VirtualChannels

/-- The unit at a position, if there is one, continues no identifier and is in no reference. -/
def Separates (o : ScanOptions) (formula : Text) (position : Nat) : Prop :=
  formula[position]?.any CodeUnit.continuesIdentifier = false ∧
    ∀ occurrence ∈ occurrences o formula,
      ¬(occurrence.start ≤ position ∧ position < occurrence.stop)

instance (o : ScanOptions) (formula : Text) (position : Nat) :
    Decidable (Separates o formula position) :=
  inferInstanceAs (Decidable (_ ∧ _))

/-- What stands right before a reference and right behind it separates it. -/
def Isolated (o : ScanOptions) (formula : Text) : Prop :=
  ∀ occurrence ∈ occurrences o formula,
    (0 < occurrence.start → Separates o formula (occurrence.start - 1)) ∧
      Separates o formula occurrence.stop

instance (o : ScanOptions) (formula : Text) : Decidable (Isolated o formula) :=
  inferInstanceAs (Decidable (∀ occurrence ∈ occurrences o formula, _ ∧ _))

namespace Segment

theorem getElem?_last {formula : Text} {position : Nat} {s x : Text} (hs : s ≠ [])
    (h : formula.drop position = s ++ x) :
    formula[position + s.length - 1]? = s.getLast? := by
  have hpos := List.length_pos_iff.2 hs
  rw [Nat.add_sub_assoc hpos, ← List.getElem?_drop, h, List.getElem?_append_left (by omega),
    List.getLast?_eq_getElem?]

theorem getElem?_next {formula : Text} {position : Nat} {s x : Text}
    (h : formula.drop position = s ++ x) : formula[position + s.length]? = x.head? := by
  rw [← List.getElem?_drop, h, List.getElem?_append_right (Nat.le_refl _), Nat.sub_self,
    List.head?_eq_getElem?]

theorem endsInName_getLast? {p : Text} (h : (plain p).endsInName = true) :
    p.getLast?.any CodeUnit.continuesIdentifier = true := by
  have hid := endsInName_plain.1 h
  rw [List.getLast?_eq_some_getLast hid.ne_nil]
  exact hid.continues (List.getLast_mem hid.ne_nil)

theorem untouched_of_isolated {o : ScanOptions} {formula : Text} (hi : Isolated o formula)
    (t : Text) {position : Nat} (ht : formula.drop position = t)
    (hocc : ∀ occurrence ∈ Occurrence.ofSegments position (segments o t),
      occurrence ∈ occurrences o formula) : Untouched (segments o t) := by
  revert position ht hocc
  refine segments_induction (o := o) (motive := fun t ss => ∀ {position : Nat},
    formula.drop position = t →
      (∀ occurrence ∈ Occurrence.ofSegments position ss, occurrence ∈ occurrences o formula) →
      Untouched ss) (fun _ _ => .nil) ?_ t
  intro s x hs ih position ht hocc
  have hx : formula.drop (position + s.text.length) = x := by
    rw [← List.drop_drop, ht, List.drop_left]
  rw [Untouched, List.isChain_cons]
  refine ⟨fun s' hs' => Bool.eq_false_iff.2 fun htouch => ?_,
    ih hx fun occurrence h => hocc occurrence (Occurrence.mem_ofSegments_cons.2 (Or.inr h))⟩
  rw [touches, Bool.and_eq_true, Bool.and_eq_true] at htouch
  obtain ⟨⟨href, hends⟩, hcont⟩ := htouch
  rcases segments_cases o x with ⟨-, e⟩ | ⟨s'', x', hs'', hxs, e⟩
  · rw [e] at hs'
    cases hs'
  · rw [e] at hs' hocc
    cases hs'
    -- A reference behind the segment is an occurrence that begins where the segment ends.
    have hbehind : ∀ r, s' = .reference r →
        ⟨r, position + s.text.length, position + s.text.length + r.matched.length⟩ ∈
          occurrences o formula := by
      rintro r rfl
      exact hocc _ (Occurrence.mem_ofSegments_cons.2 (Or.inr List.mem_cons_self))
    have hpos := List.length_pos_iff.2 hs''.text_ne_nil
    cases s with
    | reference r =>
      obtain ⟨-, hnext, hapart⟩ := hi _ (hocc _ List.mem_cons_self)
      cases s' with
      | reference r' =>
        exact hapart _ (hbehind r' rfl) ⟨Nat.le_refl _, Nat.lt_add_of_pos_right hpos⟩
      | plain p' =>
        obtain ⟨u, rest, hp'⟩ := List.exists_cons_of_ne_nil hs''.text_ne_nil
        have hp' : p' = u :: rest := hp'
        have hu := getElem?_next ht
        rw [hxs, text, hp'] at hu
        rw [hp'] at hcont
        rw [show formula[position + (reference r).text.length]? = some u from hu] at hnext
        exact absurd (hcont.symm.trans hnext) (by decide)
    | plain p =>
      cases s' with
      | plain p' => cases href
      | reference r' =>
        have hpos' := List.length_pos_iff.2 hs.text_ne_nil
        obtain ⟨hbefore, -⟩ := hi _ (hbehind r' rfl)
        have hlast := (hbefore (by dsimp only; omega)).1
        dsimp only at hlast
        rw [getElem?_last hs.text_ne_nil ht] at hlast
        exact absurd ((endsInName_getLast? hends).symm.trans hlast) (by decide)

end Segment

theorem Isolated.untouched {o : ScanOptions} {formula : Text} (h : Isolated o formula) :
    Segment.Untouched (segments o formula) :=
  Segment.untouched_of_isolated h formula (List.drop_zero : formula.drop 0 = formula) fun _ h => h

end VirtualChannels
