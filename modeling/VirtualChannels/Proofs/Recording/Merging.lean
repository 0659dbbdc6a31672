import VirtualChannels.Proofs.Formula.Parsing
import VirtualChannels.Proofs.Recording.Rows
import VirtualChannels.Proofs.Reference.Insertion

/-
  Operands side by side. The identifiers put in for references are tokens of their own exactly
  if no reference touches a neighbour (`inserted_tokens_and_faults`). Operands side by side are
  an error only if the tokens that are left do not parse: in `RPM"Boost"` the two identifiers
  merge into the name `RPM_Boost_`, which parses, has no value, and counts as zero at every row.
-/

namespace VirtualChannels

open Formula

/-- The identifiers put in for the references of a formula are tokens of the text they are put
into, at the places where they stand, exactly if no reference touches a neighbour. An evaluation
of some rows, all names being bound, fails exactly if these tokens do not parse. -/
theorem inserted_tokens_and_faults (o : ScanOptions) (formula : Text) (ts : List Token)
    (ht : tokenize (substitute o formula).text = .ok ts) :
    ((∀ token ∈ Segment.inserted (substitute o formula).identifiers 0 (segments o formula),
      token ∈ ts) ↔ Segment.Untouched (segments o formula)) ∧
    ∀ (b : Bindings) (data : Table Float) (times : Array Float),
      b.Cover (references o formula) → data.size ≠ 0 →
      ((∃ f, Evaluation.ofFormula { o with } formula b data times = .error f) ↔
        ∀ e, parseTokens ts ≠ .ok e) ∧
      ∀ f, Evaluation.ofFormula { o with } formula b data times = .error f → ∃ e, f = .parse e := by
  refine ⟨Segment.inserted_mem_iff_untouched formula (substitute_named o formula) ht, ?_⟩
  intro b data times hb hd
  obtain ⟨ops, -, hev⟩ := Evaluation.ofFormula_eq data times hb hd
  rw [hev]
  have hparse := parse_eq_ok_iff ht
  cases hp : parse (substitute o formula).text with
  | error e =>
    rw [hp] at hparse
    refine ⟨iff_of_true ⟨_, rfl⟩ (fun e' he' => nomatch (hparse e').2 he'), fun f hf => ?_⟩
    cases hf
    exact ⟨e, rfl⟩
  | ok expr =>
    rw [hp] at hparse
    refine ⟨iff_of_false (fun ⟨f, hf⟩ => nomatch hf) fun h => h expr ((hparse expr).1 rfl), ?_⟩
    intro f hf
    cases hf

/-- In `RPM[-1]+"Boost Level"` no reference touches a neighbour. -/
theorem inserted_tokens_rpm_plus_boost :
    ∃ ts, tokenize (substitute {} "RPM[-1]+\"Boost Level\"").text = .ok ts ∧
      ∀ token ∈ Segment.inserted (substitute {} "RPM[-1]+\"Boost Level\"").identifiers 0
        (segments {} "RPM[-1]+\"Boost Level\""), token ∈ ts := by
  have htext : (substitute {} "RPM[-1]+\"Boost Level\"").text = "RPM__1_+_Boost_Level_" := by
    decide +kernel
  have ht : tokenize (substitute {} "RPM[-1]+\"Boost Level\"").text =
      .ok [⟨.identifier "RPM__1_", 0⟩, ⟨.symbol .plus, 7⟩, ⟨.identifier "_Boost_Level_", 8⟩,
        ⟨.finish, 21⟩] := by
    rw [htext]
    with_unfolding_all rfl
  exact ⟨_, ht, (inserted_tokens_and_faults {} _ _ ht).1.2 (by decide +kernel)⟩

/-- In `RPM"Boost"` two references touch: no identifier put in is a token, and the evaluation
gives zero where an operator is missing. -/
theorem rpm_boost_merges :
    tokenize (substitute {} "RPM\"Boost\"").text =
      .ok [⟨.identifier "RPM_Boost_", 0⟩, ⟨.finish, 10⟩] ∧
    ¬ (∀ token ∈ Segment.inserted (substitute {} "RPM\"Boost\"").identifiers 0
        (segments {} "RPM\"Boost\""),
      token ∈ ([⟨.identifier "RPM_Boost_", 0⟩, ⟨.finish, 10⟩] : List Token)) ∧
    Evaluation.ofFormula {} "RPM\"Boost\"" [("RPM", 0), ("Boost", 1)] #[#[1.0, 2.0]] #[0.0] =
      .ok ⟨#[0.0], [0]⟩ := by
  have htext : (substitute {} "RPM\"Boost\"").text = "RPM_Boost_" := by decide +kernel
  have ht : tokenize (substitute {} "RPM\"Boost\"").text =
      .ok [⟨.identifier "RPM_Boost_", 0⟩, ⟨.finish, 10⟩] := by
    rw [htext]
    with_unfolding_all rfl
  refine ⟨ht, fun h => ?_, ?_⟩
  · have hu := (Segment.inserted_mem_iff_untouched "RPM\"Boost\"" (substitute_named {} _) ht).1 h
    exact absurd hu (by decide +kernel)
  · have hparse : parse (substitute {} "RPM\"Boost\"").text = .ok (.name "RPM_Boost_") := by
      rw [htext]
      with_unfolding_all rfl
    have hcover : Bindings.Cover [("RPM", 0), ("Boost", 1)] (references {} "RPM\"Boost\"") := by
      decide +kernel
    obtain ⟨ops, hops, hev⟩ := Evaluation.ofFormula_eq #[#[1.0, 2.0]] #[0.0] hcover
      (by decide)
    have hunbound : ∀ row, rowScope ops #[#[1.0, 2.0]] #[0.0] row "RPM_Boost_" = none :=
      fun row => rowScope_eq_none hcover hops #[0.0] row (by decide +kernel)
    rw [hev, hparse]
    refine congrArg Except.ok (Evaluation.ofRows_eq_of_forall_none fun row _ => ?_)
    have hconstant : Constant.find? "RPM_Boost_" = none := by decide
    rw [Expr.eval, resolve, hunbound, hconstant]
    rfl

end VirtualChannels
