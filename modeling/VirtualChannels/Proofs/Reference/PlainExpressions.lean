import VirtualChannels.Proofs.Formula.Written
import VirtualChannels.Proofs.Reference.Alignment
import VirtualChannels.Proofs.Reference.Separated

/-
  Formulas that are tokenized as they are. No bracket and no at sign begins a token, so no name
  has a suffix, and the scan cuts off the same parts as the tokenizer
  (`Lexeme.Written.exists_scanned`): the occurrences are the identifiers that are not reserved.
  They are their own identifiers, so putting in identifiers changes nothing
  (`occurrences_of_tokenize`).
-/

namespace VirtualChannels

open Formula
open Segment (Scanned)

/-- The matched text of an occurrence and its span. -/
def Occurrence.span (c : Occurrence) : Text × Nat × Nat := (c.reference.matched, c.start, c.stop)

theorem Segment.matched_named (o : ScanOptions) (identifier tail : Text) :
    (Segment.named o identifier tail).reference?.map Reference.matched =
      if o.isReserved identifier then none
      else some (identifier ++ tail.take (Shift.suffix tail).length) := by
  unfold Segment.named
  dsimp only
  split
  · rfl
  · split
    · rfl
    · rfl

namespace Formula

/-- The identifier, if the lexeme is one that is not reserved. -/
def Lexeme.unreserved? (o : ScanOptions) : Lexeme → Option Text
  | identifier n => if o.isReserved n then none else some n
  | _ => none

/-- The identifier and its span, if the token is one that is not reserved. -/
def Token.unreserved? (o : ScanOptions) (token : Token) : Option (Text × Nat × Nat) :=
  (token.lexeme.unreserved? o).map fun n => (n, token.position, token.position + n.length)

variable {pos : Nat} {t : Text} {ts : List Token}

/-- No suffix begins where a token or a blank does. -/
theorem Tokenized.suffix_length (h : Tokenized pos t ts) : (Shift.suffix t).length = 0 := by
  rcases Shift.suffix_empty_or_head t with hzero | ⟨u, rest, n, rfl, hu, -⟩
  · exact hzero
  · obtain ⟨e, he⟩ := Lexes.suffix_head hu rest [] pos
    rw [List.append_nil, h.tokenizeFrom_eq] at he
    cases he

/-- In front of a text without a suffix a lexeme is one segment, and a reference exactly if it is an
identifier that is not reserved. -/
theorem Lexeme.Written.exists_scanned {l : Lexeme} {w x : Text} (h : l.Written w x)
    (hx : (Shift.suffix x).length = 0) (o : ScanOptions) :
    ∃ s, Scanned o s x ∧ s.text = w ∧ s.reference?.map Reference.matched = l.unreserved? o := by
  cases h with
  | symbol s =>
    refine ⟨.plain [s.unit], .unit x ?_ ?_ ?_ ?_, rfl, rfl⟩ <;> cases s <;> decide
  | number hne hw => exact ⟨.plain w, .numeral hne hw, rfl, rfl⟩
  | identifier hn hstop =>
    have hscanned := Scanned.named (o := o) hn hstop
    have htext := Segment.text_named o w x
    have hmatched := Segment.matched_named o w x
    rw [hx, List.drop_zero] at hscanned
    rw [hx, List.take_zero, List.append_nil] at htext hmatched
    exact ⟨_, hscanned, htext, hmatched⟩

/-- The occurrences from a position on are the identifiers among the tokens that are not
reserved. -/
theorem Tokenized.map_span (h : Tokenized pos t ts) (o : ScanOptions) :
    (Occurrence.ofSegments pos (segments o t)).map Occurrence.span =
      ts.filterMap (Token.unreserved? o) := by
  induction h with
  | nil pos =>
    rw [segments]
    rfl
  | @blank pos u x ts hu hx ih =>
    have hsegments : segments o (u :: x) = .plain [u] :: segments o x :=
      segments_append ((Piece.cut_blank hu x).scanned o)
    rw [hsegments]
    exact ih
  | @lexeme pos l w x ts hw hx ih =>
    -- What follows is tokenized, so no suffix belongs to the lexeme.
    obtain ⟨s, hs, rfl, hmatched⟩ := hw.exists_scanned hx.suffix_length o
    rw [segments_append hs]
    cases s with
    | plain p =>
      have htoken : Token.unreserved? o ⟨l, pos⟩ = none := by
        rw [Token.unreserved?, ← hmatched]
        rfl
      rw [List.filterMap_cons_none htoken]
      exact ih
    | reference r =>
      have htoken : Token.unreserved? o ⟨l, pos⟩ =
          some (r.matched, pos, pos + r.matched.length) := by
        rw [Token.unreserved?, ← hmatched]
        rfl
      rw [List.filterMap_cons_some htoken]
      exact congrArg _ ih

end Formula

variable {o : ScanOptions} {t : Text} {ts : List Token}

theorem isIdentifier_matched_of_tokenize (h : tokenize t = .ok ts) {r : Reference}
    (hr : r ∈ references o t) : r.matched.IsIdentifier := by
  obtain ⟨c, hc, rfl⟩ := mem_references_iff.1 hr
  have hspan := List.mem_map_of_mem (f := Occurrence.span) hc
  rw [occurrences, (tokenized_of_tokenizeFrom h).map_span, List.mem_filterMap] at hspan
  obtain ⟨⟨l, p⟩, hm, hunreserved⟩ := hspan
  cases l with
  | number | symbol | finish => cases hunreserved
  | identifier n =>
    have hstands := standsIn_of_mem_tokenize h _ hm
    rw [Token.unreserved?, Lexeme.unreserved?] at hunreserved
    split at hunreserved
    · cases hunreserved
    · have hn : n = c.reference.matched := congrArg Prod.fst (Option.some.inj hunreserved)
      rw [← hn]
      cases hstands with
      | lexeme hw =>
        cases hw with
        | identifier hid => exact hid

theorem alignable_of_tokenize (h : tokenize t = .ok ts) (o : ScanOptions) : Alignable o t := by
  have hself {r : Reference} (hr : r ∈ references o t) : r.matched.toIdentifier = r.matched :=
    (isIdentifier_matched_of_tokenize h hr).toIdentifier_eq
  constructor
  · intro r hr s hs heq
    rwa [hself hr, hself hs] at heq
  · exact fun r hr => (isIdentifier_matched_of_tokenize h hr).pairless

/-- Of a text that is tokenized as it is, the occurrences are the identifiers among the tokens
that are not reserved. Each is its own identifier, and the text stays as it is when they are put
in; so does a text with identifiers when it is substituted once more. -/
theorem occurrences_of_tokenize (h : tokenize t = .ok ts) (o : ScanOptions) :
    (occurrences o t).map Occurrence.span = ts.filterMap (Token.unreserved? o) ∧
    (∀ r ∈ references o t, (substitute o t).identifiers.get? r.matched = some r.matched) ∧
    (substitute o t).text = t ∧
    (∀ o' formula, (substitute o' formula).text = t →
      (substitute o (substitute o' formula).text).text = (substitute o' formula).text) := by
  have halignable := alignable_of_tokenize h o
  have hmap {r : Reference} (hr : r ∈ references o t) : r.matched.map Text.plainUnit = r.matched :=
    (isIdentifier_matched_of_tokenize h hr).map_plainUnit
  have htext : (substitute o t).text = t := by
    rw [halignable.text_eq]
    refine Eq.trans (List.flatMap_congr fun s hs => ?_) (flatMap_segments o t)
    cases s with
    | plain p => rfl
    | reference r => exact hmap (mem_references.2 hs)
  refine ⟨(tokenized_of_tokenizeFrom h).map_span o, fun r hr => ?_, htext, ?_⟩
  · rw [halignable.get?_identifiers hr, hmap hr]
  · rintro o' formula rfl
    exact htext

/-- Neither a call nor an exponent is taken for a channel. -/
theorem occurrences_of_max :
    tokenize "max(RPM, 1e3) / pi2" = .ok
      [⟨.identifier "max", 0⟩, ⟨.symbol .openParen, 3⟩, ⟨.identifier "RPM", 4⟩, ⟨.symbol .comma, 7⟩,
        ⟨.number (Decimal.read "1e3").toFloat, 9⟩, ⟨.symbol .closeParen, 12⟩, ⟨.symbol .slash, 14⟩,
        ⟨.identifier "pi2", 16⟩, ⟨.finish, 19⟩] ∧
    (occurrences {} "max(RPM, 1e3) / pi2").map Occurrence.span =
      [(("RPM" : Text), 4, 7), (("pi2" : Text), 16, 19)] ∧
    (substitute {} "max(RPM, 1e3) / pi2").text = "max(RPM, 1e3) / pi2" := by
  have h : tokenize "max(RPM, 1e3) / pi2" = .ok
      [⟨.identifier "max", 0⟩, ⟨.symbol .openParen, 3⟩, ⟨.identifier "RPM", 4⟩, ⟨.symbol .comma, 7⟩,
        ⟨.number (Decimal.read "1e3").toFloat, 9⟩, ⟨.symbol .closeParen, 12⟩, ⟨.symbol .slash, 14⟩,
        ⟨.identifier "pi2", 16⟩, ⟨.finish, 19⟩] := by
    with_unfolding_all rfl
  obtain ⟨hspans, -, htext, -⟩ := occurrences_of_tokenize h {}
  refine ⟨h, hspans.trans ?_, htext⟩
  decide +kernel

end VirtualChannels
