import Mathlib.Data.List.Basic
import VirtualChannels.Proofs.Reference.Pieces
import VirtualChannels.Proofs.Reference.Spans

/-
  Where the pieces of a formula stand. Every position is in one piece (`exists_mem_placed`,
  `eq_of_mem_placed`), the occurrences are the pieces that are references (`mem_occurrences`),
  and the pairs among the pieces are what comes of pairing the quotation marks from the left
  (`mem_quotationPairs`).
-/

namespace VirtualChannels

open Text (IsLongest IsIdentifier)
open Segment (quotationMark)

/-- Neighbours are paired from the left; a last one without a partner is left out. -/
def paired : List Nat → List (Nat × Nat)
  | a :: b :: rest => (a, b) :: paired rest
  | _ => []

/-- The positions of the quotation marks of a text, in pairs. -/
def quotationPairs (formula : Text) : List (Nat × Nat) := paired (formula.idxsOf quotationMark)

namespace Piece

/-- Pieces and the positions where they begin. -/
def placed (position : Nat) : List Piece → List (Nat × Piece)
  | [] => []
  | p :: ps => (position, p) :: placed (position + p.text.length) ps

/-- The positions of the marks of a pair. -/
def marks? : Nat × Piece → Option (Nat × Nat)
  | (position, pair name _) => some (position, position + name.length + 1)
  | _ => none

/-! ## Where pieces stand -/

variable {formula : Text} {position : Nat} {t : Text} {ps : List Piece}

theorem drop_of_mem_placed (h : CutInto t ps) (ht : formula.drop position = t) {start : Nat}
    {p : Piece} (hp : (start, p) ∈ placed position ps) :
    ∃ x, formula.drop start = p.text ++ x ∧ p.Cut x := by
  induction h generalizing position with
  | nil => cases hp
  | @cons q x ps hq hps ih =>
    rcases List.mem_cons.1 hp with heq | hp
    · cases heq
      exact ⟨x, ht, hq⟩
    · refine ih ?_ hp
      rw [← List.drop_drop, ht, List.drop_left]

theorem le_of_mem_placed {c : Nat × Piece} (h : c ∈ placed position ps) : position ≤ c.1 := by
  induction ps generalizing position with
  | nil => cases h
  | cons p ps ih =>
    rcases List.mem_cons.1 h with rfl | h
    · exact Nat.le_refl _
    · exact Nat.le_of_add_right_le (ih h)

/-- No position is in two pieces. -/
theorem eq_of_mem_placed {c d : Nat × Piece} (hc : c ∈ placed position ps)
    (hd : d ∈ placed position ps) {i : Nat} (hci : c.1 ≤ i ∧ i < c.1 + c.2.text.length)
    (hdi : d.1 ≤ i ∧ i < d.1 + d.2.text.length) : c = d := by
  induction ps generalizing position with
  | nil => cases hc
  | cons p ps ih =>
    rcases List.mem_cons.1 hc with rfl | hc
    · rcases List.mem_cons.1 hd with rfl | hd
      · rfl
      · have := le_of_mem_placed hd
        dsimp only at hci
        omega
    · rcases List.mem_cons.1 hd with rfl | hd
      · have := le_of_mem_placed hc
        dsimp only at hdi
        omega
      · exact ih hc hd

/-- Every position of a text is in a piece. -/
theorem exists_mem_placed (h : CutInto t ps) {i : Nat} (hi : position ≤ i)
    (hlt : i < position + t.length) :
    ∃ c ∈ placed position ps, c.1 ≤ i ∧ i < c.1 + c.2.text.length := by
  induction h generalizing position with
  | nil =>
    rw [List.length_nil] at hlt
    omega
  | @cons p x ps hp hps ih =>
    rw [List.length_append] at hlt
    by_cases hin : i < position + p.text.length
    · exact ⟨_, List.mem_cons_self, hi, hin⟩
    · obtain ⟨c, hc, hci⟩ := ih (Nat.le_of_not_lt hin) (by omega)
      exact ⟨c, List.mem_cons_of_mem _ hc, hci⟩

/-- The occurrences among the segments of pieces are the pieces that are references. -/
theorem mem_ofSegments_map {o : ScanOptions} {c : Occurrence} (h : CutInto t ps) :
    c ∈ Occurrence.ofSegments position (ps.map (segment o)) ↔
      ∃ start p r, (start, p) ∈ placed position ps ∧ p.segment o = .reference r ∧
        c = ⟨r, start, start + p.text.length⟩ := by
  induction h generalizing position with
  | nil =>
    refine iff_of_false (fun h => nomatch h) ?_
    rintro ⟨start, p, r, h, -⟩
    cases h
  | @cons q x ps hq hps ih =>
    rw [List.map_cons, Occurrence.mem_ofSegments_cons, text_segment o hq, ih]
    constructor
    · rintro (⟨r, hr, rfl⟩ | ⟨start, p, r, hp, hr, rfl⟩)
      · refine ⟨position, q, r, List.mem_cons_self, hr, ?_⟩
        rw [← text_segment o hq, hr]
        rfl
      · exact ⟨start, p, r, List.mem_cons_of_mem _ hp, hr, rfl⟩
    · rintro ⟨start, p, r, hp, hr, rfl⟩
      rcases List.mem_cons.1 hp with heq | hp
      · cases heq
        refine Or.inl ⟨r, hr, ?_⟩
        rw [← text_segment o hq, hr]
        rfl
      · exact Or.inr ⟨start, p, r, hp, hr, rfl⟩

theorem mem_occurrences {o : ScanOptions} {c : Occurrence} (h : CutInto formula ps) :
    c ∈ occurrences o formula ↔ ∃ start p r, (start, p) ∈ placed 0 ps ∧
      p.segment o = .reference r ∧ c = ⟨r, start, start + p.text.length⟩ := by
  rw [occurrences, h.segments_eq o]
  exact mem_ofSegments_map h

/-! ## Pairs of quotation marks -/

/-- A suffix contains no quotation mark. -/
theorem mark_not_mem_of_isLongest {suffix x : Text}
    (h : IsLongest Shift.IsWritten suffix.length (suffix ++ x)) : quotationMark ∉ suffix := by
  intro hm
  rcases (h.holds_left (List.ne_nil_of_mem hm)).isPart_or_mem hm with hpart | hmark
  · exact absurd hpart (by decide)
  · exact absurd hmark (by decide)

theorem idxsOf_eq_nil {s : Text} (h : quotationMark ∉ s) (position : Nat) :
    s.idxsOf quotationMark position = [] :=
  List.idxsOf_eq_nil_iff.2 fun _ hu => beq_eq_false_iff_ne.2 fun heq => h (heq ▸ hu)

/-- The marks of a piece that is not a mark alone are those of a pair. -/
theorem Cut.idxsOf_text {p : Piece} {x : Text} (h : p.Cut x)
    (hp : p ≠ Piece.unit quotationMark)
    (position : Nat) : p.text.idxsOf quotationMark position =
      (marks? (position, p)).elim [] fun q => [q.1, q.2] := by
  have hquoted {name suffix : Text} (hname : quotationMark ∉ name) (hs : quotationMark ∉ suffix) :
      (Piece.pair name suffix).text.idxsOf quotationMark position =
        [position, position + name.length + 1] := by
    rw [Piece.text, List.idxsOf_append, idxsOf_eq_nil hs, List.append_nil, Text.quoted, List.idxsOf_cons,
      if_pos (by decide), List.idxsOf_append, idxsOf_eq_nil hname, List.nil_append, List.idxsOf_cons,
      if_pos (by decide), List.idxsOf_nil, Nat.add_right_comm]
  cases h with
  | emptyPair => exact hquoted List.not_mem_nil List.not_mem_nil
  | pair hne hname hs => exact hquoted hname (mark_not_mem_of_isLongest hs)
  | numeral hne ht =>
    refine idxsOf_eq_nil (fun hm => ?_) position
    exact absurd ((ht.holds_left hne).isPart hm) (by decide)
  | named hne hi hs =>
    refine idxsOf_eq_nil (fun hm => ?_) position
    rcases List.mem_append.1 hm with hm | hm
    · exact absurd ((hi.holds_left hne).continues hm) (by decide)
    · exact mark_not_mem_of_isLongest hs hm
  | mark => exact absurd rfl hp
  | unit hq =>
    exact idxsOf_eq_nil (fun hm => hq (List.mem_singleton.1 hm).symm) position

theorem paired_idxsOf (h : CutInto t ps) :
    paired (t.idxsOf quotationMark position) = (placed position ps).filterMap marks? := by
  induction h generalizing position with
  | nil => rfl
  | @cons p x ps hp hps ih =>
    rw [List.idxsOf_append, placed]
    by_cases hmark : p = unit quotationMark
    · -- Nothing behind a mark without a partner is a mark.
      subst hmark
      have hx : quotationMark ∉ x := by
        cases hp with
        | mark hx => exact hx
        | unit hq => exact absurd rfl hq
      have hrest : paired (x.idxsOf quotationMark (position + 1)) =
          (placed (position + 1) ps).filterMap marks? := ih
      rw [idxsOf_eq_nil hx] at hrest ⊢
      exact hrest
    · rw [hp.idxsOf_text hmark, List.filterMap_cons]
      cases hm : marks? (position, p) with
      | none => exact ih
      | some q => exact congrArg _ ih

theorem mem_quotationPairs (h : CutInto formula ps) {q : Nat × Nat} :
    q ∈ quotationPairs formula ↔ ∃ start name suffix,
      (start, pair name suffix) ∈ placed 0 ps ∧ q = (start, start + name.length + 1) := by
  rw [quotationPairs, paired_idxsOf h, List.mem_filterMap]
  constructor
  · rintro ⟨⟨start, p⟩, hp, hq⟩
    cases p with
    | pair name suffix => exact ⟨start, name, suffix, hp, (Option.some.inj hq).symm⟩
    | numeral | named | unit => cases hq
  · rintro ⟨start, name, suffix, hp, rfl⟩
    exact ⟨_, hp, rfl⟩

end Piece

end VirtualChannels
