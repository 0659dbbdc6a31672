import VirtualChannels.Proofs.Formula.Parsing
import VirtualChannels.Proofs.Reference.Reserved

/-
  Formulas that are one reference. What stands before the suffix says which channel or statistic is
  read (`IsHead`), and such a formula is parsed as the identifier of its reference
  (`parse_substitute_of_segments`).
-/

namespace VirtualChannels

open Formula

/-- A reference as it is written before its suffix, the name it reads, and the statistic it asks
for. -/
inductive IsHead (o : ScanOptions) : Text → Text → Option Statistic → Prop
  | quoted {name : Text} (hne : name ≠ []) (hname : Segment.quotationMark ∉ name) :
      IsHead o name.quoted name none
  | sample {identifier : Text} (hi : identifier.IsIdentifier)
      (hr : o.isReserved identifier = false) (hs : o.statistic? identifier = none) :
      IsHead o identifier identifier none
  | statistic {identifier name : Text} {statistic : Statistic} (hi : identifier.IsIdentifier)
      (hr : o.isReserved identifier = false)
      (hs : o.statistic? identifier = some (statistic, name)) :
      IsHead o identifier name (some statistic)

/-- A text that is a suffix as a whole. -/
structure IsSuffix (suffix : Text) : Prop where
  length_eq : (Shift.suffix suffix).length = suffix.length
  exists_head : ∃ u rest, suffix = u :: rest ∧ u.continuesIdentifier = false

/-- A statistic is not shifted. -/
def Reference.written (head suffix name : Text) (statistic : Option Statistic) : Reference :=
  ⟨name, if statistic.isSome then .none else (Shift.suffix suffix).shift, head ++ suffix, statistic⟩

section
variable {o : ScanOptions} {head name suffix : Text} {statistic : Option Statistic}

theorem IsHead.scanned (h : IsHead o head name statistic) (hs : IsSuffix suffix) :
    Segment.Scanned o (.reference (.written head suffix name statistic)) [] := by
  obtain ⟨hlength, v, rest, rfl, hv⟩ := hs
  have htake : (v :: rest).take (Shift.suffix (v :: rest)).length = v :: rest := by
    rw [hlength, List.take_length]
  have hdrop : (v :: rest).drop (Shift.suffix (v :: rest)).length = [] := by
    rw [hlength, List.drop_length]
  have hstop : ∀ u ∈ (v :: rest).head?, u.continuesIdentifier = false := by
    intro u hu
    cases hu
    exact hv
  cases h with
  | quoted hne hname =>
    have hscanned := Segment.Scanned.quoted (o := o) (v :: rest) hne hname
    rwa [htake, hdrop] at hscanned
  | sample hi hr hstatistic =>
    have hscanned := Segment.Scanned.named (o := o) hi hstop
    unfold Segment.named at hscanned
    dsimp only at hscanned
    rw [htake, hdrop, hr, hstatistic] at hscanned
    exact hscanned
  | statistic hi hr hstatistic =>
    have hscanned := Segment.Scanned.named (o := o) hi hstop
    unfold Segment.named at hscanned
    dsimp only at hscanned
    rw [htake, hdrop, hr, hstatistic] at hscanned
    exact hscanned

theorem IsHead.segments_eq (h : IsHead o head name statistic) (hs : IsSuffix suffix) :
    segments o (head ++ suffix) = [.reference (.written head suffix name statistic)] := by
  have hsegments := segments_append (h.scanned hs)
  rwa [Segment.text_reference, List.append_nil, segments] at hsegments

/-- What ends in a suffix is not an identifier. -/
theorem IsSuffix.not_isIdentifier (hs : IsSuffix suffix) (head : Text) :
    ¬ (head ++ suffix).IsIdentifier := by
  intro hid
  obtain ⟨-, v, rest, rfl, hv⟩ := hs
  rw [hid.continues (List.mem_append_right head List.mem_cons_self)] at hv
  cases hv

end

/-! ## A formula that is one reference -/

section
variable {o : ScanOptions} {formula : Text} {r : Reference}

theorem substitute_of_segments (h : segments o formula = [.reference r]) :
    substitute o formula =
      ⟨r.matched.toIdentifier, [r], [(r.matched, r.matched.toIdentifier)]⟩ := by
  have hrefs : references o formula = [r] := by
    unfold references
    rw [h]
    rfl
  have hassign : Identifier.assign ([r].map Reference.matched) =
      [(r.matched, r.matched.toIdentifier)] := rfl
  unfold substitute
  dsimp only
  rw [hrefs, h, hassign, List.flatMap_cons, List.flatMap_nil, List.append_nil, Segment.replaced,
    Assignment.get?, List.lookup_cons, beq_self_eq_true]
  rfl

theorem underscore_mem_toIdentifier {u : CodeUnit} {rest : Text} (hu : u.isDigit = false)
    (hid : ¬ Text.IsIdentifier (u :: rest)) :
    Text.underscore ∈ Text.toIdentifier (u :: rest) := by
  rcases (Text.sharesOnset_toIdentifier rest hu).eq_or_underscore with heq | hmem
  · exact absurd (heq ▸ Text.isIdentifier_toIdentifier (u :: rest)) hid
  · exact hmem

theorem parse_identifier {t : Text} (hid : t.IsIdentifier) (hf : Builtin.find? t = none) :
    parse t = .ok (.name t) := by
  let d : Derivation Empty .expression :=
    .expression (.term (.unsigned (.base (.name t))) .noProduct) .noSum
  have hlexes : Lexes t [] (some (d.words.map (Word.spelled Empty.elim))) :=
    Lexes.of_written (.identifier hid fun u hu => nomatch hu)
  obtain ⟨ts, hts, hspells, hfinish⟩ := spells_of_lexes hlexes
  refine (parse_eq_ok_iff hts _).2 ((parseTokens_eq_ok_iff (fun w => w.elim) hspells hfinish).2 ?_)
  exact ⟨d, rfl, ⟨⟨hf, trivial⟩, trivial⟩, rfl⟩

/-- The identifier of the reference has an underscore, so it is that of no function. -/
theorem parse_substitute_of_segments (h : segments o formula = [.reference r])
    (hid : ¬ r.matched.IsIdentifier) :
    parse (substitute o formula).text = .ok (.name r.matched.toIdentifier) := by
  obtain ⟨x, hx⟩ := Segment.Scanned.of_mem (h ▸ List.mem_singleton_self (Segment.reference r))
  obtain ⟨u, rest, hmatched, hu⟩ := hx.head_matched rfl
  have hfree : Builtin.find? r.matched.toIdentifier = none := by
    rw [hmatched] at hid ⊢
    have hreserved := isReserved_of_underscore (underscore_mem_toIdentifier hu hid)
    refine Option.not_isSome_iff_eq_none.1 fun hsome => ?_
    rw [isReserved_default_iff.2 (Or.inl hsome)] at hreserved
    cases hreserved
  rw [substitute_of_segments h]
  exact parse_identifier r.matched.isIdentifier_toIdentifier hfree

end

end VirtualChannels
