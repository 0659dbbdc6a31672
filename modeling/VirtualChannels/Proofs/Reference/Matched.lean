import VirtualChannels.Proofs.Reference.Scanning

/-
  What the matched text of a reference says. It is cut off as the same reference where nothing
  follows (`Scanned.alone`), so that references with one matched text are one reference
  (`Scanned.eq_of_matched`), and leaving out those whose matched text came before leaves out
  none (`mem_references`).
-/

namespace VirtualChannels

namespace Segment

variable {o : ScanOptions}

theorem named_take (identifier tail : Text) :
    Segment.named o identifier (tail.take (Shift.suffix tail).length) =
      Segment.named o identifier tail := by
  have htake : (tail.take (Shift.suffix tail).length).take (Shift.suffix tail).length =
      tail.take (Shift.suffix tail).length := by
    rw [List.take_take, Nat.min_self]
  unfold Segment.named
  dsimp only
  rw [Shift.suffix_take_length, htake]

/-- A segment that is a reference would be one if nothing came behind it. -/
theorem Scanned.alone {s : Segment} {x : Text} (h : Scanned o s x) {r : Reference}
    (hs : s = .reference r) : Scanned o (.reference r) [] := by
  have hdrop : ∀ tail : Text, (tail.take (Shift.suffix tail).length).drop
      (Shift.suffix tail).length = [] := fun tail => by
    rw [List.drop_take, Nat.sub_self, List.take_zero]
  cases h with
  | mark | emptyPair | numeral | point | unit => cases hs
  | @quoted name tail hne hname =>
    have h' := Scanned.quoted (o := o) (tail.take (Shift.suffix tail).length) hne hname
    rw [Shift.suffix_take_length, List.take_take, Nat.min_self, hdrop] at h'
    rwa [← hs]
  | @named identifier tail hi htail =>
    have hstop : ∀ u ∈ (tail.take (Shift.suffix tail).length).head?,
        u.continuesIdentifier = false := by
      intro u hu
      rw [List.head?_take] at hu
      split at hu
      · cases hu
      · exact htail u hu
    have h' := Scanned.named (o := o) hi hstop
    rw [Shift.suffix_take_length, named_take, hdrop] at h'
    rwa [← hs]

/-- References with one matched text are one reference. -/
theorem Scanned.eq_of_matched {r r' : Reference} {x x' : Text}
    (h : Scanned o (.reference r) x) (h' : Scanned o (.reference r') x')
    (e : r.matched = r'.matched) : r = r' := by
  have ha := h.alone rfl
  have ha' := h'.alone rfl
  obtain ⟨u, rest, hcons⟩ := List.exists_cons_of_ne_nil ha.text_ne_nil
  rw [text_reference] at hcons
  have htext : (reference r).text ++ [] = u :: rest := by
    rw [text_reference, hcons, List.append_nil]
  have htext' : (reference r').text ++ [] = u :: rest := by
    rw [text_reference, ← e, hcons, List.append_nil]
  have hfirst := ha.first_eq htext
  have hfirst' := ha'.first_eq htext'
  rw [hfirst] at hfirst'
  cases hfirst'
  rfl

/-- A matched text does not begin with a digit. -/
theorem Scanned.head_matched {s : Segment} {x : Text} (h : Scanned o s x) {r : Reference}
    (hs : s = .reference r) : ∃ u rest, r.matched = u :: rest ∧ u.isDigit = false := by
  cases h with
  | mark | emptyPair | numeral | point | unit => cases hs
  | quoted tail hne hname =>
    cases hs
    exact ⟨_, _, rfl, by decide⟩
  | @named identifier tail hi htail =>
    obtain ⟨u, more, rfl, hu, -⟩ := hi
    have htext := text_named o (u :: more) tail
    rw [hs, text_reference, List.cons_append] at htext
    exact ⟨u, _, htext, CodeUnit.isDigit_eq_false hu⟩

/-- A statistic is not shifted, and every other reference has the shift of its suffix. -/
theorem Scanned.usable {s : Segment} {x : Text} (h : Scanned o s x) {r : Reference}
    (hs : s = .reference r) : r.shift.Usable := by
  cases h with
  | mark | emptyPair | numeral | point | unit => cases hs
  | quoted tail hne hname =>
    cases hs
    exact Shift.usable_suffix tail
  | @named identifier tail hi htail =>
    unfold Segment.named at hs
    dsimp only at hs
    split at hs
    · cases hs
    · split at hs
      · cases hs
        exact .none
      · cases hs
        exact Shift.usable_suffix tail

theorem Scanned.of_mem {s : Segment} {t : Text} (h : s ∈ segments o t) :
    ∃ x, Scanned o s x := by
  revert h
  refine segments_induction (o := o) (motive := fun _ ss => s ∈ ss → ∃ x, Scanned o s x) ?_ ?_ t
  · intro h
    cases h
  · intro s' x hs' ih h
    rcases List.mem_cons.1 h with rfl | h
    · exact ⟨x, hs'⟩
    · exact ih h

end Segment

/-! ## The references of a formula -/

namespace Reference

theorem mem_insertByLength {r s : Reference} {rs : List Reference} :
    s ∈ insertByLength r rs ↔ s = r ∨ s ∈ rs := by
  induction rs with
  | nil => simp [insertByLength]
  | cons a rs ih =>
    unfold insertByLength
    split
    · exact List.mem_cons
    · rw [List.mem_cons, ih, List.mem_cons, or_left_comm]

theorem mem_foldl_insertByLength {s : Reference} (rs sorted : List Reference) :
    s ∈ rs.foldl (fun sorted r => insertByLength r sorted) sorted ↔ s ∈ rs ∨ s ∈ sorted := by
  induction rs generalizing sorted with
  | nil => simp
  | cons r rs ih =>
    rw [List.foldl_cons, ih, mem_insertByLength, List.mem_cons, or_left_comm, or_assoc]

theorem mem_longestFirst {s : Reference} {rs : List Reference} :
    s ∈ longestFirst rs ↔ s ∈ rs := by
  rw [longestFirst, mem_foldl_insertByLength]
  exact or_iff_left List.not_mem_nil

theorem mem_of_mem_distinct {s : Reference} {rs : List Reference} (h : s ∈ distinct rs) :
    s ∈ rs := by
  induction rs with
  | nil => exact h
  | cons r rs ih =>
    rcases List.mem_cons.1 h with rfl | h
    · exact List.mem_cons_self
    · exact List.mem_cons_of_mem r (ih (List.mem_filter.1 h).1)

/-- Of every matched text one reference stays. -/
theorem exists_mem_distinct {s : Reference} {rs : List Reference} (h : s ∈ rs) :
    ∃ r ∈ distinct rs, r.matched = s.matched := by
  induction rs with
  | nil => cases h
  | cons r rs ih =>
    by_cases e : s.matched = r.matched
    · exact ⟨r, List.mem_cons_self, e.symm⟩
    · have hs : s ∈ rs := (List.mem_cons.1 h).resolve_left fun h => e (h ▸ rfl)
      obtain ⟨r', hr', e'⟩ := ih hs
      refine ⟨r', List.mem_cons_of_mem r (List.mem_filter.2 ⟨hr', ?_⟩), e'⟩
      exact decide_eq_true (e' ▸ e)

end Reference

theorem Segment.reference?_eq_some {s : Segment} {r : Reference} :
    s.reference? = some r ↔ s = .reference r := by
  cases s with
  | plain t => exact iff_of_false (fun h => nomatch h) (fun h => nomatch h)
  | reference r' =>
    rw [Segment.reference?, Option.some.injEq, Segment.reference.injEq]

/-- The references of a formula are the segments that are references. -/
theorem mem_references {o : ScanOptions} {formula : Text} {r : Reference} :
    r ∈ references o formula ↔ .reference r ∈ segments o formula := by
  have hmem : ∀ r, r ∈ (segments o formula).filterMap Segment.reference? ↔
      .reference r ∈ segments o formula := fun r => by
    rw [List.mem_filterMap]
    constructor
    · rintro ⟨s, hs, e⟩
      rwa [← Segment.reference?_eq_some.1 e]
    · intro h
      exact ⟨_, h, rfl⟩
  rw [references, Reference.mem_longestFirst]
  constructor
  · intro h
    exact (hmem r).1 (Reference.mem_of_mem_distinct h)
  · intro h
    obtain ⟨r', hr', e⟩ := Reference.exists_mem_distinct ((hmem r).2 h)
    obtain ⟨x, hx⟩ := Segment.Scanned.of_mem h
    obtain ⟨x', hx'⟩ := Segment.Scanned.of_mem ((hmem r').1 (Reference.mem_of_mem_distinct hr'))
    rwa [← hx'.eq_of_matched hx e]

theorem head_matched_of_mem_references {o : ScanOptions} {formula : Text} {r : Reference}
    (h : r ∈ references o formula) : ∃ u rest, r.matched = u :: rest ∧ u.isDigit = false := by
  obtain ⟨x, hx⟩ := Segment.Scanned.of_mem (mem_references.1 h)
  exact hx.head_matched rfl

theorem usable_of_mem_references {o : ScanOptions} {formula : Text} {r : Reference}
    (h : r ∈ references o formula) : r.shift.Usable := by
  obtain ⟨x, hx⟩ := Segment.Scanned.of_mem (mem_references.1 h)
  exact hx.usable rfl

/-- References of a formula with one matched text are one reference. -/
theorem eq_of_mem_references {o : ScanOptions} {formula : Text} {r r' : Reference}
    (h : r ∈ references o formula) (h' : r' ∈ references o formula)
    (e : r.matched = r'.matched) : r = r' := by
  obtain ⟨x, hx⟩ := Segment.Scanned.of_mem (mem_references.1 h)
  obtain ⟨x', hx'⟩ := Segment.Scanned.of_mem (mem_references.1 h')
  exact hx.eq_of_matched hx' e

end VirtualChannels
