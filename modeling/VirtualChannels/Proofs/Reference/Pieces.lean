import VirtualChannels.Proofs.Reference.Matched
import VirtualChannels.Proofs.Reference.WrittenSuffixes

/-
  The pieces of a formula. The rules of the scan say which piece comes first, by what is the
  longest numeral, identifier or suffix at a place (`Piece.Cut`). Every formula is cut into
  pieces in exactly one way (`exists_cutInto`, `CutInto.unique`), whatever names are reserved,
  and its segments are those of its pieces (`CutInto.segments_eq`).
-/

namespace VirtualChannels

open Text (IsLongest IsIdentifier)
open Segment (quotationMark Scanned)

theorem Text.length_quoted (t : Text) : t.quoted.length = t.length + 2 := by
  rw [quoted, List.length_cons, List.length_append]
  rfl

/-- What the scan takes at once: a pair of quotation marks with what stands between them, a
numeral, a name, either of both with a suffix, or any other unit. -/
inductive Piece where
  | pair (name suffix : Text)
  | numeral (text : Text)
  | named (identifier suffix : Text)
  | unit (u : CodeUnit)

namespace Piece

def text : Piece → Text
  | pair name suffix => name.quoted ++ suffix
  | numeral t => t
  | named identifier suffix => identifier ++ suffix
  | unit u => [u]

/-- The rules by which a piece is cut off in front of a text. A quotation mark without a partner
is a unit, and an empty pair has no suffix. -/
inductive Cut : Piece → Text → Prop
  | emptyPair (x : Text) : Cut (pair [] []) x
  | pair {name suffix x : Text} (hne : name ≠ []) (hname : quotationMark ∉ name)
      (hs : IsLongest Shift.IsWritten suffix.length (suffix ++ x)) : Cut (pair name suffix) x
  | numeral {t x : Text} (hne : t ≠ [])
      (ht : IsLongest Numeral.IsNumeral t.length (t ++ x)) : Cut (numeral t) x
  | named {identifier suffix x : Text} (hne : identifier ≠ [])
      (hi : IsLongest IsIdentifier identifier.length (identifier ++ (suffix ++ x)))
      (hs : IsLongest Shift.IsWritten suffix.length (suffix ++ x)) : Cut (named identifier suffix) x
  | mark {x : Text} (hx : quotationMark ∉ x) : Cut (unit quotationMark) x
  | unit {u : CodeUnit} {x : Text} (hq : u ≠ quotationMark)
      (ht : IsLongest Numeral.IsNumeral 0 (u :: x)) (hi : IsLongest IsIdentifier 0 (u :: x)) :
      Cut (unit u) x

/-- The segment of a piece. -/
def segment (o : ScanOptions) : Piece → Segment
  | pair name suffix =>
    if name = [] then .plain (name.quoted ++ suffix)
    else .reference ⟨name, (Shift.suffix suffix).shift, name.quoted ++ suffix, none⟩
  | numeral t => .plain t
  | named identifier suffix => Segment.named o identifier suffix
  | unit u => .plain [u]

end Piece

/-- The text is cut into the pieces from left to right. -/
inductive CutInto : Text → List Piece → Prop
  | nil : CutInto [] []
  | cons {p : Piece} {x : Text} {ps : List Piece} (hp : p.Cut x) (hps : CutInto x ps) :
      CutInto (p.text ++ x) (p :: ps)

namespace Piece

variable {o : ScanOptions} {p q : Piece} {x y : Text}

/-! ## Pieces and segments -/

/-- The suffix that is read is the longest, and is read alike where nothing follows. -/
theorem suffix_append {suffix : Text}
    (hs : IsLongest Shift.IsWritten suffix.length (suffix ++ x)) :
    Shift.suffix (suffix ++ x) = Shift.suffix suffix ∧
      (Shift.suffix suffix).length = suffix.length := by
  have hlength := (Shift.isLongest_suffix _).unique hs
  have halone := Shift.suffix_take_length (suffix ++ x)
  rw [hlength, List.take_left] at halone
  exact ⟨halone.symm, halone ▸ hlength⟩

/-- A text that begins with nothing that starts an identifier does not begin with one. -/
theorem isLongest_zero {u : CodeUnit} (hu : u.startsIdentifier = false) (x : Text) :
    IsLongest IsIdentifier 0 (u :: x) := by
  refine ⟨Nat.zero_le _, fun h => absurd rfl h, ?_⟩
  rintro p ⟨v, rest, rfl, hv, -⟩ hprefix
  rw [(List.cons_prefix_cons.1 hprefix).1, hu] at hv
  cases hv

theorem length_numeral {t : Text} (ht : IsLongest Numeral.IsNumeral t.length (t ++ x)) :
    Numeral.length (t ++ x) = t.length :=
  (Numeral.isLongest_length _).unique ht

/-- A unit alone begins no identifier and continues none. -/
theorem Cut.continues_unit {u : CodeUnit} {x : Text} (h : (Piece.unit u).Cut x) :
    u.continuesIdentifier = false := by
  cases h with
  | mark => decide
  | unit hq ht hi =>
    refine Bool.eq_false_iff.2 fun hu => ?_
    rcases Bool.or_eq_true_iff.1 hu with hstart | hd
    · have hid : IsIdentifier [u] := ⟨u, [], rfl, hstart, fun v hv => nomatch hv⟩
      exact Nat.not_succ_le_zero 0 (hi.longest [u] hid ⟨x, rfl⟩)
    · exact Numeral.length_ne_zero_of_isDigit hd x ((Numeral.isLongest_length _).unique ht)

theorem Cut.scanned (h : p.Cut x) (o : ScanOptions) : Scanned o (p.segment o) x := by
  cases h with
  | emptyPair => exact .emptyPair x
  | @pair name suffix x hne hname hs =>
    obtain ⟨halone, hlength⟩ := suffix_append hs
    have hscanned := Scanned.quoted (o := o) (suffix ++ x) hne hname
    rw [halone, hlength, List.take_left, List.drop_left] at hscanned
    rw [segment, if_neg hne]
    exact hscanned
  | numeral hne ht => exact .numeral hne (length_numeral ht)
  | @named identifier suffix x hne hi hs =>
    obtain ⟨halone, hlength⟩ := suffix_append hs
    obtain ⟨hid, hstop⟩ := hi.stops hne
    have hscanned := Scanned.named (o := o) hid hstop
    rw [← Segment.named_take, halone, hlength, List.take_left, List.drop_left] at hscanned
    exact hscanned
  | mark hx => exact .mark hx
  | @unit u x hq ht hi =>
    have hlength : Numeral.length (u :: x) = 0 := (Numeral.isLongest_length _).unique ht
    have hcontinues := (Cut.unit hq ht hi).continues_unit
    by_cases hp : u = Decimal.point
    · subst hp
      exact .point hlength
    · obtain ⟨hstart, hd⟩ := Bool.or_eq_false_iff.1 hcontinues
      exact .unit x hq hd hp hstart

theorem text_segment (o : ScanOptions) {p : Piece} (h : p.Cut x) : (p.segment o).text = p.text := by
  cases h with
  | emptyPair | numeral | mark | unit => rfl
  | pair hne =>
    rw [segment, if_neg hne]
    rfl
  | named hne hi hs =>
    obtain ⟨-, hlength⟩ := suffix_append hs
    rw [segment, Segment.text_named, hlength, List.take_length]
    rfl

/-- Whatever the scan cuts off is a piece. -/
theorem exists_cut {s : Segment} (h : Scanned o s x) : ∃ p : Piece, p.Cut x ∧ p.segment o = s := by
  have hsuffix (tail : Text) : IsLongest Shift.IsWritten
      (tail.take (Shift.suffix tail).length).length
      (tail.take (Shift.suffix tail).length ++ tail.drop (Shift.suffix tail).length) := by
    have hlongest := Shift.isLongest_suffix tail
    rwa [List.take_append_drop, List.length_take, Nat.min_eq_left hlongest.le]
  cases h with
  | mark hx => exact ⟨unit quotationMark, .mark hx, rfl⟩
  | emptyPair => exact ⟨pair [] [], .emptyPair x, rfl⟩
  | @quoted name tail hne hname =>
    refine ⟨pair name (tail.take (Shift.suffix tail).length), .pair hne hname (hsuffix tail), ?_⟩
    rw [segment, if_neg hne, Shift.suffix_take_length]
  | @numeral t x hne ht =>
    have hlongest := Numeral.isLongest_length (t ++ x)
    rw [ht] at hlongest
    exact ⟨numeral t, .numeral hne hlongest, rfl⟩
  | point hx =>
    have hlongest := Numeral.isLongest_length (Decimal.point :: x)
    rw [hx] at hlongest
    exact ⟨unit Decimal.point, .unit (by decide) hlongest (isLongest_zero (by decide) x), rfl⟩
  | @named identifier tail hi htail =>
    have hstop : ∀ u ∈ (tail.take (Shift.suffix tail).length ++
        tail.drop (Shift.suffix tail).length).head?, u.continuesIdentifier = false := by
      rwa [List.take_append_drop]
    exact ⟨named identifier (tail.take (Shift.suffix tail).length),
      .named hi.ne_nil (hi.isLongest hstop) (hsuffix tail), Segment.named_take identifier tail⟩
  | @unit u x hq hd hp hi =>
    have hlongest := Numeral.isLongest_length (u :: x)
    have hlength : Numeral.length (u :: x) = 0 := by
      by_contra hne
      rcases Numeral.head_of_length_ne_zero hne with h | h
      · rw [hd] at h
        cases h
      · exact hp h
    rw [hlength] at hlongest
    exact ⟨unit u, .unit hq hlongest (isLongest_zero hi x), rfl⟩

/-! ## One way to cut -/

/-- The piece of a segment that is scanned where no name is reserved and none asks for a
statistic. -/
def ofSegment : Segment → Piece
  | .plain [] => numeral []
  | .plain (u :: rest) =>
    if u = quotationMark then (if rest = [] then unit u else pair [] [])
    else if Numeral.length (u :: rest) = 0 then unit u
    else numeral (u :: rest)
  | .reference r =>
    if r.matched.head? = some quotationMark then pair r.name (r.matched.drop (r.name.length + 2))
    else named r.name (r.matched.drop r.name.length)

theorem Cut.ofSegment_eq (h : p.Cut x) : ofSegment (p.segment ⟨[], []⟩) = p := by
  cases h with
  | emptyPair => rfl
  | @pair name suffix x hne hname hs =>
    rw [segment, if_neg hne, ofSegment, if_pos (by rfl), ← Text.length_quoted, List.drop_left]
  | @numeral t x hne ht =>
    obtain ⟨u, rest, rfl⟩ := List.exists_cons_of_ne_nil hne
    have hnumeral := ht.holds_left hne
    have hq : u ≠ quotationMark := by
      rintro rfl
      exact absurd (hnumeral.isPart List.mem_cons_self) (by decide)
    have hlength : Numeral.length (u :: rest) ≠ 0 :=
      Nat.ne_of_gt (Nat.lt_of_lt_of_le (Nat.zero_lt_succ _)
        (Numeral.length_le_of_isNumeral hnumeral (List.prefix_refl _)))
    rw [segment, ofSegment, if_neg hq, if_neg hlength]
  | @named identifier suffix x hne hi hs =>
    obtain ⟨u, rest, rfl, hu, -⟩ := (hi.stops hne).1
    obtain ⟨-, hlength⟩ := suffix_append hs
    have hq : some u ≠ some quotationMark := by
      rintro ⟨⟩
      revert hu
      decide
    rw [segment, Segment.named, hlength, List.take_length]
    exact (if_neg hq).trans (by rw [List.drop_left])
  | mark => rfl
  | @unit u x hq ht hi =>
    have hlength : Numeral.length [u] = 0 := by
      by_contra hne
      have hle := ht.longest _ (Numeral.isNumeral_take_length hne)
        ((List.take_prefix _ _).trans ⟨x, rfl⟩)
      rw [List.length_take, Nat.min_eq_left (Numeral.length_le _)] at hle
      exact hne (Nat.le_zero.1 hle)
    rw [segment, ofSegment, if_neg hq, if_pos hlength]

theorem Cut.text_ne_nil (h : p.Cut x) : p.text ≠ [] := by
  rw [← text_segment {} h]
  exact (h.scanned {}).text_ne_nil

/-- Of a text one piece comes first. -/
theorem Cut.unique (h : p.Cut x) (h' : q.Cut y) (e : p.text ++ x = q.text ++ y) : p = q ∧ x = y := by
  obtain ⟨u, rest, hcons⟩ := List.exists_cons_of_ne_nil
    (List.append_ne_nil_of_left_ne_nil h.text_ne_nil x)
  have hfirst := (h.scanned ⟨[], []⟩).first_eq ((text_segment _ h).symm ▸ hcons)
  have hfirst' := (h'.scanned ⟨[], []⟩).first_eq ((text_segment _ h').symm ▸ e.symm.trans hcons)
  have hpiece : p = q := by
    rw [← h.ofSegment_eq, ← h'.ofSegment_eq, ← hfirst, ← hfirst']
  subst hpiece
  exact ⟨rfl, List.append_cancel_left e⟩

end Piece

theorem exists_cutInto (t : Text) : ∃ ps, CutInto t ps := by
  refine segments_induction (o := {}) (motive := fun t _ => ∃ ps, CutInto t ps) ⟨[], .nil⟩ ?_ t
  rintro s x hs ⟨ps, hps⟩
  obtain ⟨p, hp, rfl⟩ := Piece.exists_cut hs
  exact ⟨p :: ps, Piece.text_segment {} hp ▸ .cons hp hps⟩

theorem CutInto.unique {t : Text} {ps qs : List Piece} (h : CutInto t ps) (h' : CutInto t qs) :
    ps = qs := by
  induction h generalizing qs with
  | nil =>
    generalize ht : ([] : Text) = t at h'
    cases h' with
    | nil => rfl
    | cons hq => exact absurd (List.append_eq_nil_iff.1 ht.symm).1 hq.text_ne_nil
  | @cons p x ps hp hps ih =>
    generalize ht : p.text ++ x = t at h'
    cases h' with
    | nil => exact absurd (List.append_eq_nil_iff.1 ht).1 hp.text_ne_nil
    | cons hq hqs =>
      obtain ⟨rfl, rfl⟩ := hp.unique hq ht
      rw [ih hqs]

/-- The segments of a text are those of its pieces. -/
theorem CutInto.segments_eq {t : Text} {ps : List Piece} (h : CutInto t ps) (o : ScanOptions) :
    segments o t = ps.map (Piece.segment o) := by
  induction h with
  | nil =>
    rw [segments]
    rfl
  | @cons p x ps hp hps ih =>
    have hsegments := segments_append (hp.scanned o)
    rwa [Piece.text_segment o hp, ih] at hsegments

end VirtualChannels
