import VirtualChannels.Proofs.Formula.Values
import VirtualChannels.Proofs.Recording.Rows
import VirtualChannels.Proofs.Reference.Isolated
import VirtualChannels.Proofs.Reference.Reserved

/-
  Reading a formula directly. A formula is evaluated by replacing its references by identifiers,
  lexing and parsing the text that comes out, and giving the identifiers their values row by row.
  Where the references stand apart this is what the formula says when each reference is one word
  of it, which reads its own sample or statistic (`evaluate_eq_direct_reading`).
-/

namespace VirtualChannels

open Formula

/-- What a reference reads at a row: the statistic of its column, else the sample in the row its
shift leads to. -/
def Reference.reading (b : Bindings) (data : Table Float) (times : Array Float) (row : Nat)
    (r : Reference) : Float :=
  match Assignment.get? b r.name with
  | none => 0.0
  | some column =>
    match r.statistic.bind fun s => (Summary.ofColumn data column).value? s with
    | some x => x
    | none => (data.cell? (r.shift.row data.size times row) column).getD 0.0

/-- The derivation is one of the words of the formula, in which each reference is an operand. -/
def DirectReading (formula : Text) (d : Derivation Reference .expression) : Prop :=
  directWords formula 0 (occurrences {} formula) = some d.words ∧ d.Admissible

/-- The value of a derivation at a row, where each reference stands for what it reads and the
other names for functions and constants. -/
def directOutcome (b : Bindings) (data : Table Float) (times : Array Float) (row : Nat)
    (d : Derivation Reference .expression) : Except EvalError Float :=
  (d.tree fun r => .number (r.reading b data times row)).eval fun _ => none

theorem Reference.reading_eq {b : Bindings} {data : Table Float} {r : Reference} {column : Nat}
    (h : Assignment.get? b r.name = some column) (times : Array Float) (row : Nat) :
    r.reading b data times row = (Operand.ofReference data r column).value data times row := by
  rw [reading, h]
  dsimp only
  rw [Operand.ofReference]
  cases r.statistic.bind fun s => (Summary.ofColumn data column).value? s with
  | none => rfl
  | some x => rfl

/-! ## Identifiers as the spelling of references -/

/-- The identifier of a reference; one that is not in the formula gets a name of no function. -/
def spelling (formula : Text) (r : Reference) : Text :=
  ((substitute {} formula).identifiers.get? r.matched).getD [Text.underscore]

section
variable {formula : Text}

theorem get?_spelling {r : Reference} (h : .reference r ∈ segments {} formula) :
    (substitute {} formula).identifiers.get? r.matched = some (spelling formula r) := by
  obtain ⟨identifier, hi⟩ := exists_identifier r (mem_references.2 h)
  rw [spelling, hi, Option.getD_some]

theorem find?_spelling (r : Reference) : Builtin.find? (spelling formula r) = none := by
  cases h : (substitute {} formula).identifiers.get? r.matched with
  | none =>
    rw [spelling, h]
    decide
  | some identifier =>
    obtain ⟨m, hm, hi⟩ := Identifier.mem_identifiers_assign.1
      (List.mem_map.2 ⟨_, Assignment.mem_of_get?_eq_some h, rfl⟩)
    obtain ⟨r', hr', rfl⟩ := List.mem_map.1 hm
    have hfree := isReserved_identifier hr' hi
    rw [spelling, h, Option.getD_some]
    refine Option.eq_none_iff_forall_ne_some.2 fun f hf => ?_
    rw [isReserved_default_iff.2 (Or.inl (by rw [hf]; rfl))] at hfree
    cases hfree

/-- At a row a name of a function or constant has no value of its own. -/
theorem rowScope_reserved {b : Bindings} {data : Table Float} {ops : Assignment Operand}
    (hb : b.Cover (references {} formula))
    (hops : operands (substitute {} formula).identifiers b data (references {} formula) = .ok ops)
    (times : Array Float) (row : Nat) {n : Text} (hn : ScanOptions.isReserved {} n = true) :
    rowScope ops data times row n = none := by
  refine rowScope_eq_none hb hops times row fun hmem => ?_
  obtain ⟨m, hm, hi⟩ := Identifier.mem_identifiers_assign.1 hmem
  obtain ⟨r, hr, rfl⟩ := List.mem_map.1 hm
  rw [isReserved_identifier hr hi] at hn
  cases hn

/-- At a row the words of a formula mean what they mean in its direct reading. -/
theorem meant_of_allWords {b : Bindings} {data : Table Float} {ops : Assignment Operand}
    (hb : b.Cover (references {} formula))
    (hops : operands (substitute {} formula).identifiers b data (references {} formula) = .ok ops)
    (times : Array Float) (row : Nat) {ws : List (Word Reference)}
    (h : Segment.allWords (segments {} formula) = some ws) :
    ∀ w ∈ ws, w.Meant (rowScope ops data times row) (spelling formula)
      (Reference.reading b data times row) := by
  intro w hw
  obtain ⟨s, hs, vs, hvs, hw⟩ := Segment.exists_of_mem_allWords h hw
  cases s with
  | reference r =>
    cases hvs
    cases List.mem_singleton.1 hw
    obtain ⟨column, hcolumn⟩ := hb r (mem_references.2 hs)
    show rowScope ops data times row (spelling formula r) = some (r.reading b data times row)
    rw [Reference.reading_eq hcolumn]
    exact rowScope_identifier hb hops (mem_references.2 hs) (get?_spelling hs) hcolumn times row
  | plain p =>
    obtain ⟨ls, hls, rfl⟩ := Option.map_eq_some_iff.1 hvs
    obtain ⟨l, hl, rfl⟩ := List.mem_map.1 hw
    cases l with
    | number | symbol | finish => trivial
    | identifier n =>
      intro hnot
      obtain ⟨x, hx⟩ := Segment.Scanned.of_mem hs
      have hn := hx.isReserved rfl (n := n) (by rw [hls]; exact hl)
      refine ⟨rowScope_reserved hb hops times row hn, ?_⟩
      refine (isReserved_default_iff.1 hn).resolve_left fun hf => ?_
      rw [hnot] at hf
      cases hf

/-- In a formula whose references stand apart, the tokens of the text with identifiers spell the
words of the formula; if it has none there are no tokens. -/
theorem spells_of_isolated (hi : Isolated {} formula) :
    (directWords formula 0 (occurrences {} formula) = none ∧
      ∃ e, tokenize (substitute {} formula).text = .error e) ∨
    ∃ ws ts, directWords formula 0 (occurrences {} formula) = some ws ∧
      tokenize (substitute {} formula).text = .ok ts ∧ Spells (spelling formula) ws ts ∧
      .lexeme .finish ∉ ws := by
  have hspelling : ∀ r, Segment.reference r ∈ segments {} formula →
      spelling formula r = (Segment.reference r).replaced (substitute {} formula).identifiers :=
    fun r hr => by rw [Segment.replaced, get?_spelling hr, Option.getD_some]
  have hlexes := Segment.lexes_replaced formula (substitute_named {} formula) hspelling hi.untouched
  rw [directWords_eq]
  cases hws : Segment.allWords (segments {} formula) with
  | none =>
    rw [hws] at hlexes
    obtain ⟨e, he⟩ := hlexes 0
    rw [List.append_nil] at he
    exact Or.inl ⟨rfl, e, he⟩
  | some ws =>
    rw [hws] at hlexes
    obtain ⟨ts, ht, hspells, hfin⟩ := spells_of_lexes hlexes
    exact Or.inr ⟨ws, ts, rfl, ht, hspells, hfin⟩

/-- A formula whose references stand apart parses as its direct reading, if it has one. -/
theorem parse_of_isolated (hi : Isolated {} formula) (e : Expr) :
    parse (substitute {} formula).text = .ok e ↔
      ∃ d, DirectReading formula d ∧ d.tree (fun r => .name (spelling formula r)) = e := by
  rcases spells_of_isolated hi with ⟨hnone, err, ht⟩ | ⟨ws, ts, hws, ht, hspells, hfin⟩
  · refine iff_of_false (fun h => ?_) ?_
    · rw [parse_eq] at h
      split at h
      · cases h
      · rw [ht] at h
        cases h
    · rintro ⟨d, ⟨hd, -⟩, -⟩
      rw [hnone] at hd
      cases hd
  · rw [parse_eq_ok_iff ht, parseTokens_eq_ok_iff find?_spelling hspells hfin]
    constructor
    · rintro ⟨d, rfl, ha, he⟩
      exact ⟨d, ⟨hws, ha⟩, he⟩
    · rintro ⟨d, ⟨hd, ha⟩, he⟩
      rw [hws] at hd
      exact ⟨d, (Option.some.inj hd).symm, ha, he⟩

end

/-! ## Evaluation -/

/-- Where the references of a formula stand apart and all names are bound, an evaluation of some
rows is a syntax error exactly if the formula has no direct reading. Else it has one, and the
value of every row is that of the direct reading, zero and degraded if it is not finite. -/
theorem evaluate_eq_direct_reading (formula : Text) (hi : Isolated {} formula) (b : Bindings)
    (data : Table Float) (times : Array Float) (hb : b.Cover (references {} formula))
    (hd : data.size ≠ 0) :
    ((∃ e, Evaluation.ofFormula {} formula b data times = .error (.parse e)) ↔
      ¬∃ d, DirectReading formula d) ∧
    (∀ d d', DirectReading formula d → DirectReading formula d' → d = d') ∧
    ∀ d, DirectReading formula d →
      ∃ ev, Evaluation.ofFormula {} formula b data times = .ok ev ∧ ev.values.size = data.size ∧
        ∀ row < data.size, ∃ v, directOutcome b data times row d = .ok v ∧
          ev.values[row]? = some (if Number.isFinite v then v else 0.0) ∧
          (row ∈ ev.degraded ↔ Number.isFinite v = false) := by
  obtain ⟨ops, hops, hev⟩ := Evaluation.ofFormula_eq data times hb hd
  have hparse := parse_of_isolated hi
  refine ⟨?_, ?_, ?_⟩
  · rw [hev]
    cases hp : parse (substitute {} formula).text with
    | error e =>
      refine iff_of_true ⟨e, rfl⟩ fun ⟨d, hreading⟩ => ?_
      rw [(hparse _).2 ⟨d, hreading, rfl⟩] at hp
      cases hp
    | ok expr =>
      obtain ⟨d, hreading, -⟩ := (hparse expr).1 hp
      exact iff_of_false (fun ⟨e, h⟩ => nomatch h) fun h => h ⟨d, hreading⟩
  · rintro d d' ⟨hw, -⟩ ⟨hw', -⟩
    rw [hw] at hw'
    exact Derivation.eq_of_words_eq (Option.some.inj hw')
  · intro d hreading
    have he := (hparse _).2 ⟨d, hreading, rfl⟩
    have hws := hreading.1
    rw [directWords_eq] at hws
    rw [hev, he]
    refine ⟨_, rfl, Evaluation.size_ofRows _ _, fun row hrow => ?_⟩
    obtain ⟨v, hv, hv'⟩ := d.sameMeaning hreading.2 (meant_of_allWords hb hops times row hws)
    refine ⟨v, hv', ?_, ?_⟩
    · rw [Evaluation.getElem?_ofRows hrow, hv, finiteOutcome?]
      split
      · rfl
      · rfl
    · rw [Evaluation.mem_degraded_ofRows, hv, finiteOutcome?_eq_none_iff]
      exact and_iff_right hrow

/-- `RPM[-1]*"Boost Level"+pi` has a direct reading, and two rows get its values. -/
theorem evaluate_rpm_times_boost :
    Isolated {} "RPM[-1]*\"Boost Level\"+pi" ∧ ∃ d ev,
      DirectReading "RPM[-1]*\"Boost Level\"+pi" d ∧
      Evaluation.ofFormula {} "RPM[-1]*\"Boost Level\"+pi" [("RPM", 0), ("Boost Level", 1)]
        #[#[1.0, 2.0], #[3.0, 4.0]] #[0.0, 0.5] = .ok ev ∧
      ∀ row < 2, ∃ v, directOutcome [("RPM", 0), ("Boost Level", 1)]
          #[#[1.0, 2.0], #[3.0, 4.0]] #[0.0, 0.5] row d = .ok v ∧
        ev.values[row]? = some (if Number.isFinite v then v else 0.0) := by
  have hi : Isolated {} "RPM[-1]*\"Boost Level\"+pi" := by decide +kernel
  have hcover : Bindings.Cover [("RPM", 0), ("Boost Level", 1)]
      (references {} "RPM[-1]*\"Boost Level\"+pi") := by
    decide +kernel
  have htext : (substitute {} "RPM[-1]*\"Boost Level\"+pi").text = "RPM__1_*_Boost_Level_+pi" := by
    decide +kernel
  have hparse : parse (substitute {} "RPM[-1]*\"Boost Level\"+pi").text = .ok
      (.binary .add (.binary .mul (.name "RPM__1_") (.name "_Boost_Level_")) (.name "pi")) := by
    rw [htext]
    with_unfolding_all rfl
  obtain ⟨d, hreading, -⟩ := (parse_of_isolated hi _).1 hparse
  obtain ⟨-, -, h⟩ := evaluate_eq_direct_reading _ hi _
    #[#[1.0, 2.0], #[3.0, 4.0]] #[0.0, 0.5] hcover (by decide)
  obtain ⟨ev, hev, -, hrows⟩ := h d hreading
  refine ⟨hi, d, ev, hreading, hev, fun row hrow => ?_⟩
  obtain ⟨v, hv, hvalue, -⟩ := hrows row hrow
  exact ⟨v, hv, hvalue⟩

end VirtualChannels
