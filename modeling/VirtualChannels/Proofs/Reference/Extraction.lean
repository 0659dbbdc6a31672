import VirtualChannels.Proofs.Reference.Matched
import VirtualChannels.Proofs.Reference.Spans

/-
  One reference for each matched text. A matched text is scanned alike wherever it stands
  (`occurrences_matched`), so the references of a formula are those of its occurrences, each
  once, the longest first and those of one length in the order of their first occurrences
  (`pairwise_references`).
-/

namespace VirtualChannels

namespace Reference

/-- The longer of two matched texts comes first, and where the lengths are the same, the relation
tells. -/
def LongerOr (R : Reference → Reference → Prop) (r s : Reference) : Prop :=
  s.matched.length < r.matched.length ∨ s.matched.length = r.matched.length ∧ R r s

/-- One of the occurrences of the first reference stands before every one of the second. -/
def FirstBefore (cs : List Occurrence) (r s : Reference) : Prop :=
  ∃ c ∈ cs, c.reference = r ∧ ∀ d ∈ cs, d.reference = s → c.start < d.start

/-! ## Longest first -/

variable {R : Reference → Reference → Prop}

theorem LongerOr.length_le {r s : Reference} (h : LongerOr R r s) :
    s.matched.length ≤ r.matched.length :=
  h.elim Nat.le_of_lt fun h => Nat.le_of_eq h.1

/-- A reference that the relation puts last comes behind all that are as long. -/
theorem pairwise_insertByLength {r : Reference} {rs : List Reference}
    (h : rs.Pairwise (LongerOr R)) (hr : ∀ s ∈ rs, R s r) :
    (insertByLength r rs).Pairwise (LongerOr R) := by
  induction rs with
  | nil => exact List.pairwise_singleton _ _
  | cons a rs ih =>
    obtain ⟨ha, hrs⟩ := List.pairwise_cons.1 h
    unfold insertByLength
    split
    · rename_i hlt
      refine List.pairwise_cons.2 ⟨fun s hs => Or.inl ?_, h⟩
      rcases List.mem_cons.1 hs with rfl | hs
      · exact hlt
      · exact Nat.lt_of_le_of_lt (ha s hs).length_le hlt
    · rename_i hge
      refine List.pairwise_cons.2 ⟨fun s hs => ?_, ih hrs fun s hs => hr s (List.mem_cons_of_mem a hs)⟩
      rcases mem_insertByLength.1 hs with rfl | hs
      · exact (Nat.lt_or_eq_of_le (Nat.le_of_not_lt hge)).imp_right
          fun heq => ⟨heq, hr a List.mem_cons_self⟩
      · exact ha s hs

theorem pairwise_foldl_insertByLength {rs sorted : List Reference} (h : rs.Pairwise R)
    (hs : sorted.Pairwise (LongerOr R)) (hbefore : ∀ s ∈ sorted, ∀ r ∈ rs, R s r) :
    (rs.foldl (fun sorted r => insertByLength r sorted) sorted).Pairwise (LongerOr R) := by
  induction rs generalizing sorted with
  | nil => exact hs
  | cons r rs ih =>
    obtain ⟨hr, hrs⟩ := List.pairwise_cons.1 h
    refine ih hrs (pairwise_insertByLength hs fun s hs => hbefore s hs r List.mem_cons_self) ?_
    intro s hs r' hr'
    rcases mem_insertByLength.1 hs with rfl | hs
    · exact hr r' hr'
    · exact hbefore s hs r' (List.mem_cons_of_mem r hr')

theorem pairwise_longestFirst {rs : List Reference} (h : rs.Pairwise R) :
    (longestFirst rs).Pairwise (LongerOr R) :=
  pairwise_foldl_insertByLength h .nil fun _ hs => absurd hs List.not_mem_nil

/-! ## First occurrences -/

/-- What stays without those whose matched text came before is in the order of first occurrences. -/
theorem pairwise_distinct {cs : List Occurrence} (h : cs.Pairwise fun c d => c.start < d.start) :
    (distinct (cs.map Occurrence.reference)).Pairwise (FirstBefore cs) := by
  induction cs with
  | nil => exact .nil
  | cons c cs ih =>
    obtain ⟨hc, hcs⟩ := List.pairwise_cons.1 h
    have hne {s : Reference} (hs : s ∈ (distinct (cs.map Occurrence.reference)).filter fun s =>
        s.matched ≠ c.reference.matched) : c.reference ≠ s := fun heq =>
      of_decide_eq_true (List.mem_filter.1 hs).2 (heq ▸ rfl)
    rw [List.map_cons, distinct, List.pairwise_cons]
    constructor
    · refine fun s hs => ⟨c, List.mem_cons_self, rfl, fun d hd heq => ?_⟩
      rcases List.mem_cons.1 hd with rfl | hd
      · exact absurd heq (hne hs)
      · exact hc d hd
    · refine ((ih hcs).filter _).imp_of_mem fun {r s} _ hs hrs => ?_
      obtain ⟨b, hb, hr, hbefore⟩ := hrs
      refine ⟨b, List.mem_cons_of_mem c hb, hr, fun d hd heq => ?_⟩
      rcases List.mem_cons.1 hd with rfl | hd
      · exact absurd heq (hne hs)
      · exact hbefore d hd heq

theorem FirstBefore.ne {cs : List Occurrence} {r s : Reference} (h : FirstBefore cs r s) :
    r ≠ s := by
  obtain ⟨c, hc, hr, hbefore⟩ := h
  exact fun heq => Nat.lt_irrefl _ (hbefore c hc (hr.trans heq))

end Reference

section

variable {o : ScanOptions} {formula : Text}

/-! ## Occurrences and references -/

theorem exists_scanned_of_mem {c : Occurrence} (h : c ∈ occurrences o formula) :
    ∃ x, Segment.Scanned o (.reference c.reference) x := by
  have hmem := List.mem_map_of_mem (f := Occurrence.reference) h
  rw [map_reference_occurrences, List.mem_filterMap] at hmem
  obtain ⟨s, hs, href⟩ := hmem
  rw [Segment.reference?_eq_some.1 href] at hs
  exact Segment.Scanned.of_mem hs

/-- A matched text alone is one occurrence of its reference. -/
theorem occurrences_matched {c : Occurrence} (h : c ∈ occurrences o formula) :
    occurrences o c.reference.matched =
      [⟨c.reference, 0, c.reference.matched.length⟩] := by
  obtain ⟨x, hx⟩ := exists_scanned_of_mem h
  have hsegments := segments_append (hx.alone rfl)
  rw [Segment.text_reference, List.append_nil, segments] at hsegments
  rw [occurrences, hsegments, Occurrence.ofSegments, Occurrence.ofSegments, Nat.zero_add]
  rfl

theorem mem_references_iff {r : Reference} :
    r ∈ references o formula ↔ ∃ c ∈ occurrences o formula, c.reference = r := by
  rw [mem_references, ← List.mem_map, map_reference_occurrences, List.mem_filterMap]
  constructor
  · exact fun h => ⟨_, h, rfl⟩
  · rintro ⟨s, hs, href⟩
    rwa [← Segment.reference?_eq_some.1 href]

theorem pairwise_references (o : ScanOptions) (formula : Text) :
    (references o formula).Pairwise
      (Reference.LongerOr (Reference.FirstBefore (occurrences o formula))) := by
  have hstart : (occurrences o formula).Pairwise fun c d => c.start < d.start :=
    (pairwise_occurrences o formula).imp_of_mem fun hc _ hcd =>
      Nat.lt_of_lt_of_le (fills_of_mem hc).start_lt_stop hcd
  rw [references, ← map_reference_occurrences]
  exact Reference.pairwise_longestFirst (Reference.pairwise_distinct hstart)

theorem nodup_matched_references (o : ScanOptions) (formula : Text) :
    ((references o formula).map Reference.matched).Nodup := by
  refine List.pairwise_map.2 ((pairwise_references o formula).imp_of_mem ?_)
  intro r s hr hs hrs heq
  rcases hrs with hlt | ⟨-, hfirst⟩
  · rw [heq] at hlt
    exact Nat.lt_irrefl _ hlt
  · exact hfirst.ne (eq_of_mem_references hr hs heq)

end

/-- A matched text means the same everywhere: alone it is the one occurrence, and wherever else
it is matched, the reference is the same. So the references of a formula are those of its
occurrences, one for each matched text, the longest first and in the order of their first
occurrences. -/
theorem matched_decides (o : ScanOptions) (formula : Text) :
    (∀ c ∈ occurrences o formula, occurrences o c.reference.matched =
      [⟨c.reference, 0, c.reference.matched.length⟩]) ∧
    (∀ c ∈ occurrences o formula, ∀ formula', ∀ d ∈ occurrences o formula',
      c.reference.matched = d.reference.matched → c.reference = d.reference) ∧
    (∀ r, r ∈ references o formula ↔ ∃ c ∈ occurrences o formula, c.reference = r) ∧
    ((references o formula).map Reference.matched).Nodup ∧
    (references o formula).Pairwise
      (Reference.LongerOr (Reference.FirstBefore (occurrences o formula))) := by
  refine ⟨fun c => occurrences_matched, ?_, fun r => mem_references_iff,
    nodup_matched_references o formula, pairwise_references o formula⟩
  intro c hc formula' d hd heq
  obtain ⟨x, hx⟩ := exists_scanned_of_mem hc
  obtain ⟨x', hx'⟩ := exists_scanned_of_mem hd
  exact hx.eq_of_matched hx' heq

example : (references {} "RPM+Boost[-1]+ECT+RPM").map Reference.matched =
    ["Boost[-1]", "RPM", "ECT"] := by
  decide +kernel

end VirtualChannels
