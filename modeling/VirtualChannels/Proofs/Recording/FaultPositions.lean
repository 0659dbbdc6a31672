import VirtualChannels.Proofs.Formula.Faults
import VirtualChannels.Proofs.Formula.Written
import VirtualChannels.Proofs.Recording.Operands
import VirtualChannels.Proofs.Reference.Alignment

/-
  Where the complaints about a formula point. They are found in the text with identifiers; where
  that is aligned with the formula, the token that stands at a position of the text is what the
  formula has at this position (`Alignable.typedIn`), so the positions are those of the formula.
-/

namespace VirtualChannels

open Formula

/-- What the token is written as stands in the formula at its position, unit by unit, apart from
underscores for units of occurrences; the end stands where the formula ends. -/
inductive Formula.Token.TypedIn (o : ScanOptions) (formula : Text) : Token → Prop
  | finish : TypedIn o formula ⟨.finish, formula.length⟩
  | lexeme {pos : Nat} {l : Lexeme} {w x : Text} (hw : l.Written w x)
      (hunits : ∀ (i : Nat) (u : CodeUnit), w[i]? = some u → formula[pos + i]? = some u ∨
        u = Text.underscore ∧ ∃ c ∈ occurrences o formula, c.start ≤ pos + i ∧ pos + i < c.stop) :
      TypedIn o formula ⟨l, pos⟩

namespace Alignable

variable {o : ScanOptions} {formula : Text}

/-- A unit of the text is that of the formula, or an underscore within an occurrence. -/
theorem unit_eq_or (h : Alignable o formula) {i : Nat} {u : CodeUnit}
    (hu : (substitute o formula).text[i]? = some u) : formula[i]? = some u ∨
      u = Text.underscore ∧ ∃ c ∈ occurrences o formula, c.start ≤ i ∧ i < c.stop := by
  rcases h.getElem?_text i with ⟨c, hc, hstart, hstop, heq⟩ | heq
  · rw [hu] at heq
    obtain ⟨v, hv, hplain⟩ := Option.map_eq_some_iff.1 heq.symm
    rcases Text.plainUnit_eq_or v with hself | hunderscore
    · rw [← hplain, hself]
      exact Or.inl hv
    · rw [← hplain]
      exact Or.inr ⟨hunderscore, c, hc, hstart, hstop⟩
  · exact Or.inl (heq ▸ hu)

/-- Whatever token stands in the text with identifiers stands in the formula at the same
position. -/
theorem typedIn (h : Alignable o formula) {token : Token}
    (ht : token.StandsIn (substitute o formula).text) : token.TypedIn o formula := by
  cases ht with
  | finish =>
    rw [(aligned_substitute h).length_eq]
    exact .finish
  | @lexeme pos l w x hw hdrop =>
    refine .lexeme hw fun i u hu => h.unit_eq_or ?_
    rw [← List.getElem?_drop, hdrop, List.getElem?_append_left (List.getElem?_eq_some_iff.1 hu).1, hu]

/-- A unit at which no token begins is one of the formula. -/
theorem unexpected (h : Alignable o formula) {u : CodeUnit} {position : Nat}
    (ht : tokenize (substitute o formula).text = .error ⟨u, position⟩) :
    formula[position]? = some u := by
  obtain ⟨n, rest, hposition, hdrop, -, hfirst⟩ := of_tokenizeFrom_error ht
  obtain rfl : position = n := hposition.trans (Nat.zero_add n)
  have hunit : (substitute o formula).text[position]? = some u := by
    rw [← List.head?_drop, hdrop]
    rfl
  refine (h.unit_eq_or hunit).resolve_right ?_
  rintro ⟨hunderscore, -⟩
  -- An underscore would begin an identifier.
  have hfirst : Lexeme.first? u rest = none := hfirst
  rw [hunderscore, Lexeme.first?_identifier (by decide)] at hfirst
  cases hfirst

end Alignable

section

variable {o : ScanOptions} {formula : Text} {e : ParseError}

theorem FormulaFault.gives_parse {position : Nat} (h : ParseError.Gives e.message position) :
    ParseError.Gives (parse e).message position := by
  obtain ⟨before, after, heq, hafter⟩ := h
  refine ⟨"Parse error: " ++ before, after, ?_, hafter⟩
  rw [message, Text.join_cons, Text.join_cons, Text.join_nil, List.append_nil, heq,
    List.append_assoc]

theorem parse_of_validate_error {channels : List Text}
    (h : validate o formula channels = .error (.parse e)) :
    parse (substitute o formula).text = .error e := by
  unfold validate at h
  split at h
  · cases h
  · dsimp only at h
    split at h
    · cases h
    · split at h
      · rename_i e' he
        cases h
        exact he
      · split at h
        · cases h
        · cases h

theorem parse_of_evaluate_error {aborted : Nat → Bool} {b : Bindings} {data : Table Float}
    {times : Array Float} (h : evaluate ⟨o, aborted⟩ formula b data times = .error (.parse e)) :
    parse (substitute o formula).text = .error e := by
  have hfault : Evaluation.ofFormula ⟨o, aborted⟩ formula b data times = .error (.parse e) := by
    unfold evaluate at h
    cases hev : Evaluation.ofFormula ⟨o, aborted⟩ formula b data times with
    | error f =>
      rw [hev] at h
      cases h
      rfl
    | ok ev =>
      rw [hev] at h
      cases h
  unfold Evaluation.ofFormula at hfault
  split at hfault
  · cases hfault
  · dsimp only at hfault
    split at hfault
    · rename_i e' he
      cases hfault
      exact he
    · split at hfault
      · rename_i f hf
        obtain ⟨name, rfl⟩ := operands_error hf
        cases hfault
      · split at hfault
        · cases hfault
        · cases hfault

end

/-- Where no two matched texts make the same identifier and none has a surrogate pair, the text
with identifiers is aligned with the formula. The position in a complaint of a check or an
evaluation is that of a unit of the formula at which no token begins, or of the token that the
complaint is about, as it stands in the formula. -/
theorem fault_positions {o : ScanOptions} {formula : Text} (h : Alignable o formula) :
    (substitute o formula).Aligned o formula ∧
    ∀ e position, ParseError.position? e = some position →
      ((∃ channels, validate o formula channels = .error (.parse e)) ∨
        ∃ aborted b data times, evaluate ⟨o, aborted⟩ formula b data times = .error (.parse e)) →
      ParseError.Gives (FormulaFault.parse e).message position ∧
      ((∃ u, e = .unexpectedUnit u position ∧ formula[position]? = some u) ∨
        ∃ ts token, tokenize (substitute o formula).text = .ok ts ∧ e.About ts token ∧
          token.position = position ∧ token.TypedIn o formula) := by
  refine ⟨aligned_substitute h, fun e position hp hfault => ⟨?_, ?_⟩⟩
  · exact FormulaFault.gives_parse (ParseError.gives_message hp)
  · have hparse : parse (substitute o formula).text = .error e := by
      rcases hfault with ⟨channels, hv⟩ | ⟨aborted, b, data, times, hev⟩
      · exact parse_of_validate_error hv
      · exact parse_of_evaluate_error hev
    rcases exists_token_of_parse_error hparse hp with ⟨u, rfl, ht⟩ | ⟨ts, token, ht, habout, hpos⟩
    · exact Or.inl ⟨u, rfl, h.unexpected ht⟩
    · exact Or.inr ⟨ts, token, ht, habout, hpos,
        h.typedIn (standsIn_of_mem_tokenize ht token habout.mem)⟩

/-- The position of a parenthesis too many is the one that it has in the formula, behind a
quoted name with a shift. -/
theorem fault_position_of_closeParen :
    Alignable {} "2*(\"Oil °C\"[-1]+RPM))" ∧
    validate {} "2*(\"Oil °C\"[-1]+RPM))" ["Oil °C", "RPM"] =
      .error (.parse (.unexpectedToken (.symbol .closeParen) 20)) ∧
    ParseError.Gives (FormulaFault.parse (.unexpectedToken (.symbol .closeParen) 20)).message 20 ∧
    Token.TypedIn {} "2*(\"Oil °C\"[-1]+RPM))" ⟨.symbol .closeParen, 20⟩ := by
  have halignable : Alignable {} "2*(\"Oil °C\"[-1]+RPM))" := ⟨by decide +kernel, by decide +kernel⟩
  have hvalidate : validate {} "2*(\"Oil °C\"[-1]+RPM))" ["Oil °C", "RPM"] =
      .error (.parse (.unexpectedToken (.symbol .closeParen) 20)) := by
    with_unfolding_all rfl
  obtain ⟨hmessage, ⟨u, hu, -⟩ | ⟨ts, token, -, habout, -, htyped⟩⟩ :=
    (fault_positions halignable).2 _ 20 rfl (Or.inl ⟨_, hvalidate⟩)
  · cases hu
  · cases habout
    exact ⟨halignable, hvalidate, hmessage, htyped⟩

end VirtualChannels
