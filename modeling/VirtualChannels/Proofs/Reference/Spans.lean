import VirtualChannels.Proofs.Reference.Scanning

/-
  The spans of occurrences. An occurrence fills its span with its matched text (`fills_of_mem`),
  and the spans follow each other without overlap (`pairwise_occurrences`). What the occurrences
  refer to is what the segments do (`map_reference_occurrences`).
-/

namespace VirtualChannels

namespace Occurrence

theorem mem_ofSegments_cons {s : Segment} {ss : List Segment} {position : Nat} {c : Occurrence} :
    c ∈ ofSegments position (s :: ss) ↔
      (∃ r, s = .reference r ∧ c = ⟨r, position, position + r.matched.length⟩) ∨
        c ∈ ofSegments (position + s.text.length) ss := by
  cases s with
  | plain p =>
    refine ⟨Or.inr, fun h => h.resolve_left ?_⟩
    rintro ⟨r, h, -⟩
    cases h
  | reference r =>
    rw [ofSegments, List.mem_cons]
    refine or_congr_left ⟨fun h => ⟨r, rfl, h⟩, ?_⟩
    rintro ⟨r', h, hc⟩
    cases h
    exact hc

theorem le_start_of_mem {ss : List Segment} {position : Nat} {c : Occurrence}
    (h : c ∈ ofSegments position ss) : position ≤ c.start := by
  induction ss generalizing position with
  | nil => cases h
  | cons s ss ih =>
    rcases mem_ofSegments_cons.1 h with ⟨r, -, rfl⟩ | h
    · exact Nat.le_refl _
    · exact Nat.le_of_add_right_le (ih h)

theorem pairwise_ofSegments (position : Nat) (ss : List Segment) :
    (ofSegments position ss).Pairwise fun c d => c.stop ≤ d.start := by
  induction ss generalizing position with
  | nil => exact .nil
  | cons s ss ih =>
    cases s with
    | plain p => exact ih _
    | reference r => exact List.pairwise_cons.2 ⟨fun d hd => le_start_of_mem hd, ih _⟩

theorem map_reference_ofSegments (position : Nat) (ss : List Segment) :
    (ofSegments position ss).map reference = ss.filterMap Segment.reference? := by
  induction ss generalizing position with
  | nil => rfl
  | cons s ss ih =>
    cases s with
    | plain p => exact ih _
    | reference r => exact congrArg _ (ih _)

theorem ofSegments_append (position : Nat) (ss ss' : List Segment) :
    ofSegments position (ss ++ ss') = ofSegments position ss ++
      ofSegments (position + (ss.flatMap Segment.text).length) ss' := by
  induction ss generalizing position with
  | nil => rfl
  | cons s ss ih =>
    rw [List.flatMap_cons, List.length_append, ← Nat.add_assoc, List.cons_append]
    cases s with
    | plain p => exact ih _
    | reference r => exact congrArg _ (ih _)

/-- The same reference, so many units further on. -/
def moved (n : Nat) (c : Occurrence) : Occurrence := ⟨c.reference, c.start + n, c.stop + n⟩

theorem ofSegments_add (position n : Nat) (ss : List Segment) :
    ofSegments (position + n) ss = (ofSegments position ss).map (moved n) := by
  induction ss generalizing position with
  | nil => rfl
  | cons s ss ih =>
    have hstop : position + n + s.text.length = position + s.text.length + n :=
      Nat.add_right_comm _ _ _
    cases s with
    | plain p =>
      rw [ofSegments, hstop, ih]
      rfl
    | reference r =>
      rw [ofSegments, hstop, ih]
      rfl

/-- The occurrence lies in the text, is not empty, and its matched text is what stands there. -/
structure Fills (formula : Text) (c : Occurrence) : Prop where
  start_lt_stop : c.start < c.stop
  stop_le_length : c.stop ≤ formula.length
  matched_eq : c.reference.matched = (formula.drop c.start).take (c.stop - c.start)

theorem fills_of_drop {formula x : Text} {r : Reference} {position : Nat} (hne : r.matched ≠ [])
    (h : formula.drop position = r.matched ++ x) :
    Fills formula ⟨r, position, position + r.matched.length⟩ := by
  have hpos := List.length_pos_iff.2 hne
  refine ⟨Nat.lt_add_of_pos_right hpos, ?_, ?_⟩
  · have hlength := congrArg List.length h
    rw [List.length_drop, List.length_append] at hlength
    dsimp only
    omega
  · dsimp only
    rw [h, Nat.add_sub_cancel_left, List.take_left]

theorem fills_of_mem_ofSegments {o : ScanOptions} {formula : Text} (t : Text) {position : Nat}
    {c : Occurrence} (ht : formula.drop position = t)
    (h : c ∈ ofSegments position (segments o t)) : Fills formula c := by
  revert position ht h
  refine segments_induction (o := o) (motive := fun t ss => ∀ {position : Nat},
    formula.drop position = t → c ∈ ofSegments position ss → Fills formula c)
    (fun _ h => nomatch h) ?_ t
  intro s x hs ih position ht h
  rcases mem_ofSegments_cons.1 h with ⟨r, rfl, rfl⟩ | h
  · exact fills_of_drop hs.text_ne_nil ht
  · refine ih ?_ h
    rw [← List.drop_drop, ht, List.drop_left]

end Occurrence

section

variable {o : ScanOptions} {formula : Text} {c : Occurrence}

theorem fills_of_mem (h : c ∈ occurrences o formula) : c.Fills formula :=
  Occurrence.fills_of_mem_ofSegments formula List.drop_zero h

theorem pairwise_occurrences (o : ScanOptions) (formula : Text) :
    (occurrences o formula).Pairwise fun c d => c.stop ≤ d.start :=
  Occurrence.pairwise_ofSegments 0 (segments o formula)

theorem map_reference_occurrences (o : ScanOptions) (formula : Text) :
    (occurrences o formula).map Occurrence.reference =
      (segments o formula).filterMap Segment.reference? :=
  Occurrence.map_reference_ofSegments 0 (segments o formula)

end

end VirtualChannels
