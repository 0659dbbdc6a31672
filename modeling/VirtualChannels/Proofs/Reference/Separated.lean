import VirtualChannels.Proofs.Reference.Extraction
import VirtualChannels.Proofs.Reference.Placement

/-
  Formulas with a blank between them. No numeral, no identifier and no shift contains a blank,
  so none goes on from the one formula into the other (`Text.IsLongest.append_cons`), and
  quotation marks that are even in number have their partners before the blank. Hence the pieces
  are those of the two formulas with the blank between them (`CutInto.append_blank`), and so are
  the occurrences (`occurrences_append_blank`).
-/

namespace VirtualChannels

open Text (IsLongest IsIdentifier)
open Segment (quotationMark)

/-! ## What contains no blank -/

theorem Numeral.isBlank_of_isPart {u : CodeUnit} (h : isPart u = true) : u.isBlank = false := by
  simp only [isPart, Bool.or_eq_true, or_assoc] at h
  rcases h with hd | hp | hm | hs
  · exact Formula.isBlank_of_isDigit_or_point (Or.inl hd)
  · exact Formula.isBlank_of_isDigit_or_point (Or.inr (eq_of_beq hp))
  · rcases Bool.or_eq_true_iff.1 hm with hm | hm
    · rw [eq_of_beq hm]
      decide
    · rw [eq_of_beq hm]
      decide
  · exact CodeUnit.isBlank_of_isSign hs

theorem CodeUnit.isBlank_of_continuesIdentifier {u : CodeUnit} (h : u.continuesIdentifier = true) :
    u.isBlank = false := by
  rcases Bool.or_eq_true_iff.1 h with hs | hd
  · exact Formula.isBlank_of_startsIdentifier hs
  · exact Formula.isBlank_of_isDigit_or_point (Or.inl hd)

/-- Texts with a property contain no blank. -/
def Text.Unbroken (P : Text → Prop) : Prop := ∀ p, P p → ∀ u ∈ p, u.isBlank = false

theorem Numeral.unbroken : Text.Unbroken IsNumeral := fun _ hp _ hu => isBlank_of_isPart (hp.isPart hu)

theorem Text.unbroken_isIdentifier : Unbroken IsIdentifier :=
  fun _ hp _ hu => CodeUnit.isBlank_of_continuesIdentifier (hp.continues hu)

theorem Shift.unbroken : Text.Unbroken IsWritten := by
  intro p hp u hu
  rcases hp.isPart_or_mem hu with hpart | hmark
  · exact Numeral.isBlank_of_isPart hpart
  · have hall : [openBracket, closeBracket, atSign, secondsMark].all (!·.isBlank) = true := by decide
    simpa using List.all_eq_true.1 hall u hmark

/-- What is longest in front of the end of a text is longest in front of a blank. -/
theorem Text.IsLongest.append_cons {P : Text → Prop} {n : Nat} {t : Text} {w : CodeUnit}
    (h : IsLongest P n t) (hP : Unbroken P) (hw : w.isBlank = true) (b : Text) :
    IsLongest P n (t ++ w :: b) := by
  refine ⟨?_, fun hn => ?_, fun p hp hprefix => ?_⟩
  · rw [List.length_append]
    exact Nat.le_add_right_of_le h.le
  · rw [List.take_append_of_le_length h.le]
    exact h.holds hn
  · rcases List.prefix_or_prefix_of_prefix hprefix (List.prefix_append t (w :: b)) with hle | ⟨q, rfl⟩
    · exact h.longest p hp hle
    · -- A longer beginning would contain the blank.
      obtain ⟨rest, hq⟩ := (List.prefix_append_right_inj t).1 hprefix
      cases q with
      | nil =>
        rw [List.append_nil] at hp ⊢
        exact h.longest t hp List.prefix_rfl
      | cons v q =>
        cases hq
        rw [hP _ hp w (List.mem_append_right t List.mem_cons_self)] at hw
        cases hw

theorem Text.isLongest_nil (P : Text → Prop) : IsLongest P 0 [] :=
  ⟨Nat.le_refl 0, fun h => absurd rfl h, fun _ _ h => h.length_le⟩

/-! ## Pieces in front of a blank -/

namespace Piece

variable {p : Piece} {x : Text} {w : CodeUnit}

/-- A piece that is not a quotation mark without a partner is cut off alike in front of a blank. -/
theorem Cut.append_blank (h : p.Cut x) (hp : p ≠ Piece.unit quotationMark) (hw : w.isBlank = true)
    (b : Text) : p.Cut (x ++ w :: b) := by
  cases h with
  | emptyPair => exact .emptyPair _
  | pair hne hname hs =>
    refine .pair hne hname ?_
    rw [← List.append_assoc]
    exact hs.append_cons Shift.unbroken hw b
  | numeral hne ht =>
    refine .numeral hne ?_
    rw [← List.append_assoc]
    exact ht.append_cons Numeral.unbroken hw b
  | named hne hi hs =>
    refine .named hne ?_ ?_
    · rw [← List.append_assoc, ← List.append_assoc, List.append_assoc _ _ x]
      exact hi.append_cons Text.unbroken_isIdentifier hw b
    · rw [← List.append_assoc]
      exact hs.append_cons Shift.unbroken hw b
  | mark => exact absurd rfl hp
  | unit hq ht hi =>
    exact .unit hq (ht.append_cons Numeral.unbroken hw b)
      (hi.append_cons Text.unbroken_isIdentifier hw b)

theorem cut_blank (hw : w.isBlank = true) (b : Text) : (unit w).Cut b := by
  refine .unit ?_ ((Text.isLongest_nil _).append_cons Numeral.unbroken hw b)
    ((Text.isLongest_nil _).append_cons Text.unbroken_isIdentifier hw b)
  rintro rfl
  exact absurd hw (by decide)

/-- The quotation marks of a piece are a pair, or there are none, unless it is one without a
partner. -/
theorem Cut.count_mark (h : p.Cut x) (hp : p ≠ Piece.unit quotationMark) :
    p.text.count quotationMark % 2 = 0 := by
  have hcount := congrArg List.length (h.idxsOf_text hp 0)
  rw [List.length_idxsOf] at hcount
  rw [hcount]
  cases marks? (0, p) with
  | none => rfl
  | some q => exact Nat.mod_self 2

end Piece

/-- Of a text with an even number of quotation marks none is without a partner, and what follows a
blank is cut as if it stood alone. -/
theorem CutInto.append_blank {a b : Text} {w : CodeUnit} {ps qs : List Piece} (h : CutInto a ps)
    (h' : CutInto b qs) (heven : a.count quotationMark % 2 = 0) (hw : w.isBlank = true) :
    CutInto (a ++ w :: b) (ps ++ .unit w :: qs) := by
  induction h with
  | nil => exact .cons (Piece.cut_blank hw b) h'
  | @cons p x ps hp hps ih =>
    rw [List.count_append] at heven
    have hpartner : p ≠ .unit quotationMark := by
      rintro rfl
      cases hp with
      | mark hx =>
        rw [List.count_eq_zero_of_not_mem hx] at heven
        exact absurd heven (by decide)
      | unit hq => exact hq rfl
    have hcount := hp.count_mark hpartner
    rw [List.append_assoc]
    exact .cons (hp.append_blank hpartner hw b) (ih (by omega))

/-- The occurrences of two formulas with a blank between them are those of the first one and
those of the second one, moved by the length of what stands before it; the references are those
of both. -/
theorem occurrences_append_blank (o : ScanOptions) (a b : Text) (w : CodeUnit)
    (heven : a.count Segment.quotationMark % 2 = 0) (hw : w.isBlank = true) :
    occurrences o (a ++ w :: b) =
      occurrences o a ++ (occurrences o b).map (Occurrence.moved (a.length + 1)) ∧
    ∀ r, r ∈ references o (a ++ w :: b) ↔ r ∈ references o a ∨ r ∈ references o b := by
  have hoccurrences : occurrences o (a ++ w :: b) =
      occurrences o a ++ (occurrences o b).map (Occurrence.moved (a.length + 1)) := by
    obtain ⟨ps, hps⟩ := exists_cutInto a
    obtain ⟨qs, hqs⟩ := exists_cutInto b
    have hsegments : segments o (a ++ w :: b) = segments o a ++ .plain [w] :: segments o b := by
      rw [(hps.append_blank hqs heven hw).segments_eq o, hps.segments_eq o, hqs.segments_eq o,
        List.map_append]
      rfl
    rw [occurrences, hsegments, Occurrence.ofSegments_append, flatMap_segments, Nat.zero_add,
      Occurrence.ofSegments]
    exact congrArg _ ((congrArg (Occurrence.ofSegments · _) (Nat.zero_add _).symm).trans
      (Occurrence.ofSegments_add 0 (a.length + 1) _))
  refine ⟨hoccurrences, fun r => ?_⟩
  rw [mem_references_iff, mem_references_iff, mem_references_iff, hoccurrences]
  constructor
  · rintro ⟨c, hc, rfl⟩
    rcases List.mem_append.1 hc with hc | hc
    · exact Or.inl ⟨c, hc, rfl⟩
    · obtain ⟨d, hd, rfl⟩ := List.mem_map.1 hc
      exact Or.inr ⟨d, hd, rfl⟩
  · rintro (⟨c, hc, rfl⟩ | ⟨d, hd, rfl⟩)
    · exact ⟨c, List.mem_append_left _ hc, rfl⟩
    · exact ⟨_, List.mem_append_right _ (List.mem_map_of_mem hd), rfl⟩

/-- A half-written suffix before the blank stays half-written, whatever comes behind the blank. -/
theorem occurrences_half_suffix_blank :
    ("RPM*\"Boost\"[-1" : Text).count Segment.quotationMark % 2 = 0 ∧
    (0x20 : CodeUnit).isBlank = true ∧
    (occurrences {} ("RPM*\"Boost\"[-1" ++ 0x20 :: ("]@2s+e5" : Text))).map
      (fun c => (c.start, c.stop)) = [(0, 3), (4, 11), (18, 19), (20, 22)] := by
  have heven : ("RPM*\"Boost\"[-1" : Text).count Segment.quotationMark % 2 = 0 := by decide
  refine ⟨heven, by decide, ?_⟩
  rw [(occurrences_append_blank {} _ _ _ heven (by decide)).1]
  decide +kernel

end VirtualChannels
