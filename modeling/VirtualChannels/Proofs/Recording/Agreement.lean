import VirtualChannels.Proofs.Recording.Rows

/-
  Checking and evaluating agree. A check looks at no sample: it evaluates the formula once, with
  one for every reference. What it finds is all the same what every row of a recording shows,
  for any samples and times (`validate_agrees`).
-/

namespace VirtualChannels

/-- The value or the error of a formula at a row; none if the formula as a whole has an error. -/
def rowOutcome? (o : ScanOptions) (formula : Text) (b : Bindings) (data : Table Float)
    (times : Array Float) (row : Nat) : Option (Except Formula.EvalError Float) :=
  match Formula.parse (substitute o formula).text,
    operands (substitute o formula).identifiers b data (references o formula) with
  | .ok expr, .ok ops => some (expr.eval (rowScope ops data times row))
  | _, _ => none

theorem missingChannels_eq_filter (channels names : List Text) :
    missingChannels channels names = names.filter fun name =>
      channels.all fun c => Text.lowercase c != Text.lowercase name := by
  refine List.filter_congr fun name _ => Bool.eq_iff_iff.2 ?_
  rw [findChannel?_isNone_iff, List.all_eq_true]
  exact forall₂_congr fun c _ => bne_iff_ne.symm

/-! ## A check and an evaluation side by side -/

section
variable {o : ScanOptions} {formula : Text} {channels : List Text} {b : Bindings}
  {data : Table Float} (times : Array Float)

theorem validate_of_missing (hf : formula.isBlank = false)
    (hm : missingChannels channels (Reference.distinctNames (references o formula)) ≠ []) :
    validate o formula channels = .error
      (.unknownChannels (missingChannels channels
        (Reference.distinctNames (references o formula)))) := by
  rw [validate, if_neg (by rw [hf]; exact Bool.false_ne_true)]
  exact if_pos hm

theorem validate_of_bound (hf : formula.isBlank = false)
    (hm : missingChannels channels (Reference.distinctNames (references o formula)) = []) :
    validate o formula channels =
      match Formula.parse (substitute o formula).text with
      | .error e => .error (.parse e)
      | .ok expr =>
        match expr.eval (onesScope (substitute o formula).identifiers) with
        | .error e => .error (.evaluation e)
        | .ok _ => .ok () := by
  rw [validate, if_neg (by rw [hf]; exact Bool.false_ne_true)]
  exact if_neg (not_not.2 hm)

theorem validate_eq_unknownChannels_iff {missing : List Text} (hf : formula.isBlank = false) :
    validate o formula channels = .error (.unknownChannels missing) ↔
      missing ≠ [] ∧
        missing = missingChannels channels (Reference.distinctNames (references o formula)) := by
  by_cases hm : missingChannels channels (Reference.distinctNames (references o formula)) = []
  · rw [validate_of_bound hf hm, hm]
    refine iff_of_false (fun h => ?_) fun h => h.1 h.2
    split at h
    · cases h
    · split at h
      · cases h
      · cases h
  · rw [validate_of_missing hf hm]
    constructor
    · intro h
      cases h
      exact ⟨hm, rfl⟩
    · rintro ⟨-, rfl⟩
      rfl

theorem fault_of_bound {f : FormulaFault}
    (hb : bindReferences (references o formula) channels = .ok b)
    (h : Evaluation.ofFormula { o with } formula b data times = .error f) : ∃ e, f = .parse e := by
  by_cases hd : data.size = 0
  · rw [Evaluation.ofFormula_of_empty hd] at h
    cases h
  · obtain ⟨ops, -, hops⟩ := Evaluation.ofFormula_eq data times (bindReferences_cover hb) hd
    rw [hops] at h
    split at h
    · cases h
      exact ⟨_, rfl⟩
    · cases h

/-- Either the text with identifiers does not parse, or all rows evaluate it with scopes that
give the same names a value as a check does. -/
theorem check_and_rows (hf : formula.isBlank = false)
    (hb : bindReferences (references o formula) channels = .ok b) (hd : data.size ≠ 0) :
    (∃ e, validate o formula channels = .error (.parse e) ∧
      Evaluation.ofFormula { o with } formula b data times = .error (.parse e) ∧
      ∀ row, rowOutcome? o formula b data times row = none) ∨
    ∃ (outcome : Except Formula.EvalError Float) (outcomes : Nat → Except Formula.EvalError Float),
      (validate o formula channels =
        match outcome with
        | .error e => .error (.evaluation e)
        | .ok _ => .ok ()) ∧
      Evaluation.ofFormula { o with } formula b data times =
        .ok (.ofRows data.size fun row => finiteOutcome? (outcomes row)) ∧
      (∀ row, rowOutcome? o formula b data times row = some (outcomes row)) ∧
      ∀ row, Formula.Alike outcome (outcomes row) := by
  have hcover := bindReferences_cover hb
  obtain ⟨ops, hops, hev⟩ := Evaluation.ofFormula_eq data times hcover hd
  rw [validate_of_bound hf (bindNames_eq_ok hb).1, hev]
  unfold rowOutcome?
  cases hp : Formula.parse (substitute o formula).text with
  | error e => exact Or.inl ⟨e, rfl, rfl, fun _ => rfl⟩
  | ok expr =>
    refine Or.inr ⟨_, fun row => expr.eval (rowScope ops data times row), rfl, rfl, fun row => ?_,
      fun row => expr.eval_alike (rowScope_sameNames hcover hops times row)⟩
    rw [hops]

end

/-- What a check of a formula tells about its evaluation with given samples and times. -/
structure Agrees (o : ScanOptions) (formula : Text) (channels : List Text) (b : Bindings)
    (data : Table Float) (times : Array Float) : Prop where
  parse : ∀ e, validate o formula channels = .error (.parse e) ↔
    Evaluation.ofFormula { o with } formula b data times = .error (.parse e)
  evaluation : ∀ e, validate o formula channels = .error (.evaluation e) ↔
    ∀ row < data.size, rowOutcome? o formula b data times row = some (.error e)
  valid : validate o formula channels = .ok () ↔
    ∀ row < data.size, ∃ x, rowOutcome? o formula b data times row = some (.ok x)
  allDegraded : ∀ e, validate o formula channels = .error (.evaluation e) →
    Evaluation.ofFormula { o with } formula b data times =
      .ok ⟨(List.replicate data.size 0.0).toArray, List.range data.size⟩
  degraded : validate o formula channels = .ok () →
    ∃ ev, Evaluation.ofFormula { o with } formula b data times = .ok ev ∧
      ∀ row ∈ ev.degraded, ∃ x,
        rowOutcome? o formula b data times row = some (.ok x) ∧ Number.isFinite x = false
  rows : ∀ ev, Evaluation.ofFormula { o with } formula b data times = .ok ev →
    ev.values.size = data.size ∧ ∀ row < data.size, ∃ outcome,
      rowOutcome? o formula b data times row = some outcome ∧
      ev.values[row]? = some ((finiteOutcome? outcome).getD 0.0) ∧
      (row ∈ ev.degraded ↔ finiteOutcome? outcome = none)

section
variable {o : ScanOptions} {formula : Text} {channels : List Text} {b : Bindings}
  {data : Table Float} {times : Array Float}

theorem Agrees.of_parse_error {e : Formula.ParseError} (hd : 0 < data.size)
    (hv : validate o formula channels = .error (.parse e))
    (hev : Evaluation.ofFormula { o with } formula b data times = .error (.parse e))
    (hr : ∀ row, rowOutcome? o formula b data times row = none) :
    Agrees o formula channels b data times := by
  constructor
  case parse =>
    intro e'
    rw [hv, hev]
    simp only [Except.error.injEq, FormulaFault.parse.injEq]
  case evaluation =>
    intro e'
    rw [hv]
    refine iff_of_false (fun h => nomatch h) fun h => ?_
    have h0 := h 0 hd
    rw [hr] at h0
    cases h0
  case valid =>
    rw [hv]
    refine iff_of_false (fun h => nomatch h) fun h => ?_
    obtain ⟨x, hx⟩ := h 0 hd
    rw [hr] at hx
    cases hx
  case allDegraded =>
    intro e' h
    rw [hv] at h
    cases h
  case degraded =>
    intro h
    rw [hv] at h
    cases h
  case rows =>
    intro ev h
    rw [hev] at h
    cases h

theorem Agrees.of_outcomes {outcome : Except Formula.EvalError Float}
    {outcomes : Nat → Except Formula.EvalError Float} (hd : 0 < data.size)
    (hv : validate o formula channels =
      match outcome with
      | .error e => .error (.evaluation e)
      | .ok _ => .ok ())
    (hev : Evaluation.ofFormula { o with } formula b data times =
      .ok (.ofRows data.size fun row => finiteOutcome? (outcomes row)))
    (hr : ∀ row, rowOutcome? o formula b data times row = some (outcomes row))
    (halike : ∀ row, Formula.Alike outcome (outcomes row)) :
    Agrees o formula channels b data times := by
  have hok : validate o formula channels = .ok () ↔ ∃ x, outcome = .ok x := by
    rw [hv]
    cases outcome with
    | error e => exact iff_of_false (fun h => nomatch h) fun ⟨x, h⟩ => nomatch h
    | ok x => exact iff_of_true rfl ⟨x, rfl⟩
  have herror : ∀ e, validate o formula channels = .error (.evaluation e) ↔
      outcome = .error e := by
    intro e
    rw [hv]
    cases outcome with
    | error e' => simp only [Except.error.injEq, FormulaFault.evaluation.injEq]
    | ok x => exact iff_of_false (fun h => nomatch h) fun h => nomatch h
  constructor
  case parse =>
    intro e
    rw [hv, hev]
    refine iff_of_false (fun h => ?_) fun h => nomatch h
    cases outcome with
    | error e' => cases h
    | ok x => cases h
  case evaluation =>
    intro e
    rw [herror]
    constructor
    · intro h row _
      rw [hr, ((halike row).error_iff e).1 h]
    · intro h
      have h0 := h 0 hd
      rw [hr] at h0
      exact ((halike 0).error_iff e).2 (Option.some.inj h0)
  case valid =>
    rw [hok]
    constructor
    · intro h row _
      obtain ⟨x, hx⟩ := (halike row).ok_iff.1 h
      exact ⟨x, by rw [hr, hx]⟩
    · intro h
      obtain ⟨x, hx⟩ := h 0 hd
      rw [hr] at hx
      exact (halike 0).ok_iff.2 ⟨x, Option.some.inj hx⟩
  case allDegraded =>
    intro e h
    have he := (herror e).1 h
    rw [hev]
    refine congrArg Except.ok (Evaluation.ofRows_eq_of_forall_none fun row _ => ?_)
    rw [((halike row).error_iff e).1 he]
    rfl
  case degraded =>
    intro h
    refine ⟨_, hev, fun row hrow => ?_⟩
    obtain ⟨x, hx⟩ := (halike row).ok_iff.1 (hok.1 h)
    refine ⟨x, by rw [hr, hx], finiteOutcome?_eq_none_iff.1 ?_⟩
    rw [← hx]
    exact (Evaluation.mem_degraded_ofRows.1 hrow).2
  case rows =>
    intro ev h
    rw [hev] at h
    cases h
    refine ⟨Evaluation.size_ofRows _ _, fun row hrow => ⟨outcomes row, hr row, ?_, ?_⟩⟩
    · exact Evaluation.getElem?_ofRows hrow _
    · rw [Evaluation.mem_degraded_ofRows]
      exact and_iff_right hrow

end

/-- A check finds the channels that no binding can be found for, and the first of them is what
binding complains of. Where all are bound, no evaluation complains of a binding; a check and an
evaluation of any rows find the same errors, and a row counts as zero only for them or for a
value that is not finite. -/
theorem validate_agrees (o : ScanOptions) (formula : Text) (channels : List Text)
    (hf : formula.isBlank = false) :
    (∀ missing, validate o formula channels = .error (.unknownChannels missing) ↔
      (∃ e, bindReferences (references o formula) channels = .error e) ∧
      missing = (Reference.distinctNames (references o formula)).filter fun name =>
        channels.all fun c => Text.lowercase c != Text.lowercase name) ∧
    (∀ missing e, validate o formula channels = .error (.unknownChannels missing) →
      (bindReferences (references o formula) channels = .error e ↔
        ∃ first more, missing = first :: more ∧ e = .channelNotFound first)) ∧
    ∀ b, bindReferences (references o formula) channels = .ok b →
      ∀ (data : Table Float) (times : Array Float),
        (∀ f, Evaluation.ofFormula { o with } formula b data times = .error f → ∃ e, f = .parse e) ∧
        (data.size ≠ 0 → Agrees o formula channels b data times) := by
  refine ⟨fun missing => ?_, fun missing e hm => ?_, fun b hb data times => ⟨fun f => ?_, ?_⟩⟩
  · rw [validate_eq_unknownChannels_iff hf, ← missingChannels_eq_filter]
    constructor
    · rintro ⟨hne, rfl⟩
      obtain ⟨first, more, hm⟩ := List.exists_cons_of_ne_nil hne
      exact ⟨⟨_, bindNames_eq_error_iff.2 ⟨first, more, hm, rfl⟩⟩, rfl⟩
    · rintro ⟨⟨e, he⟩, rfl⟩
      obtain ⟨first, more, hm, -⟩ := bindNames_eq_error_iff.1 he
      exact ⟨by rw [hm]; exact List.cons_ne_nil _ _, rfl⟩
  · rw [((validate_eq_unknownChannels_iff hf).1 hm).2]
    exact bindNames_eq_error_iff
  · exact fault_of_bound times hb
  · intro hd
    rcases check_and_rows times hf hb hd with
      ⟨e, hv, hev, hr⟩ | ⟨outcome, outcomes, hv, hev, hr, halike⟩
    · exact .of_parse_error (Nat.pos_of_ne_zero hd) hv hev hr
    · exact .of_outcomes (Nat.pos_of_ne_zero hd) hv hev hr halike

/-- The check of `RPM+Boost` where both channels exist speaks for two rows, the first of which is
short. -/
theorem agrees_rpm_plus_boost :
    bindReferences (references {} "RPM+Boost") ["rpm", "boost"] = .ok [("Boost", 1), ("RPM", 0)] ∧
    Agrees {} "RPM+Boost" ["rpm", "boost"] [("Boost", 1), ("RPM", 0)]
      #[#[1.0], #[2.0, 3.0]] #[0.0, 0.5] := by
  have hnames : Reference.distinctNames (references {} "RPM+Boost") = ["Boost", "RPM"] := by
    decide +kernel
  have hb : bindReferences (references {} "RPM+Boost") ["rpm", "boost"] =
      .ok [("Boost", 1), ("RPM", 0)] := by
    rw [bindReferences, hnames]
    rfl
  obtain ⟨-, -, h⟩ := validate_agrees {} "RPM+Boost" ["rpm", "boost"] (by decide)
  exact ⟨hb, (h _ hb #[#[1.0], #[2.0, 3.0]] #[0.0, 0.5]).2 (by decide)⟩

end VirtualChannels
