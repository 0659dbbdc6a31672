import VirtualChannels.Proofs.Recording.DirectReading
import VirtualChannels.Recording.SinglePass

/-
  A single pass over the rows. Statistics that are kept are those that would be computed
  (`Summaries.fetch_eq`), and what a row leaves in the scope the next row writes over
  (`Pass.get?_write`), so after each row the pass says of the rows so far what it says that
  evaluates every row by itself (`Pass.Follows.step`). The single pass therefore has the same
  outcome (`inSinglePass_eq`), and of each row it reports the value of the expression in a scope
  made anew (`rowScope_eq_freshScope`).
-/

namespace VirtualChannels

open Formula

/-! ## Statistics are computed once -/

section
variable {data : Table Float}

theorem Summaries.fetch_eq (s : Summaries data) (column : Nat) :
    (s.fetch column).1 = Summary.ofColumn data column := by
  unfold fetch
  split
  · rename_i p hp
    have hcolumn : p.1 = column := by simpa using List.find?_some hp
    rw [← hcolumn]
    exact s.computed p (List.mem_of_find?_eq_some hp)
  · rfl

theorem Operand.resolve_eq (s : Summaries data) (r : Reference) (column : Nat) :
    (resolve s r column).1 = .ofReference data r column := by
  unfold resolve ofReference
  cases r.statistic with
  | none => rfl
  | some statistic =>
    dsimp only
    rw [s.fetch_eq, Option.bind_some]
    cases (Summary.ofColumn data column).value? statistic with
    | none => rfl
    | some x => rfl

theorem Operand.resolveAll_eq (identifiers : Assignment Text) (b : Bindings) (s : Summaries data)
    (refs : List Reference) : resolveAll identifiers b s refs = operands identifiers b data refs := by
  induction refs generalizing s with
  | nil => rfl
  | cons r rest ih =>
    rw [resolveAll, operands]
    cases Assignment.get? b r.name with
    | none => rfl
    | some column =>
      cases Assignment.get? identifiers r.matched with
      | none => rfl
      | some identifier =>
        dsimp only
        cases hrest : operands identifiers b data rest with
        | error e => simp only [ih, hrest]
        | ok others => simp only [ih, hrest, resolve_eq]

end

/-! ## One scope for all rows -/

namespace Pass

section
variable {ops : Assignment Operand} {data : Table Float} {times : Array Float}

/-- Writing replaces what the scope has for the operands, and leaves the rest. -/
theorem get?_write (hops : ∀ p ∈ ops, ∀ q ∈ ops, p.1 = q.1 → p.2 = q.2) (row : Nat)
    (scope : Assignment Float) (n : Text) :
    (write ops data times row scope).get? n =
      (rowScope ops data times row n).or (scope.get? n) := by
  induction ops generalizing scope with
  | nil => rfl
  | cons p rest ih =>
    obtain ⟨m, op⟩ := p
    have hrest := ih (fun p hp q hq => hops p (List.mem_cons_of_mem _ hp) q
      (List.mem_cons_of_mem _ hq)) (scope.put m (op.value data times row))
    have hwrite : write ((m, op) :: rest) data times row scope =
        write rest data times row (scope.put m (op.value data times row)) := rfl
    rw [hwrite, hrest, Assignment.get?_put, rowScope, rowScope, Assignment.get?_cons]
    by_cases hn : n = m
    · rw [if_pos hn, if_pos hn]
      cases hget : Assignment.get? rest n with
      | none => rfl
      | some op' =>
        -- A later operand of the name is the same one.
        have hsame : op' = op := hops _ (List.mem_cons_of_mem _ (Assignment.mem_of_get?_eq_some hget))
          _ List.mem_cons_self hn
        rw [hsame]
        rfl
    · rw [if_neg hn, if_neg hn]

/-- What the pass has come to after some rows: the scope has nothing but operands, and the values
and degraded rows are those of the rows. -/
structure Follows (expr : Expr) (ops : Assignment Operand) (data : Table Float)
    (times : Array Float) (count : Nat) (pass : Pass) : Prop where
  scope : ∀ n, ops.get? n = none → pass.scope.get? n = none
  values : pass.values =
    (Evaluation.ofRows count fun row => finiteValue? expr (rowScope ops data times row)).values
  degraded : pass.degraded.toList =
    (Evaluation.ofRows count fun row => finiteValue? expr (rowScope ops data times row)).degraded

variable {expr : Expr} {pass : Pass} {count : Nat}

theorem follows_start (expr : Expr) (ops : Assignment Operand) (data : Table Float)
    (times : Array Float) : Follows expr ops data times 0 {} :=
  ⟨fun _ _ => rfl, rfl, rfl⟩

/-- The scope of a row does not depend on the rows before. -/
theorem Follows.write_eq (hops : ∀ p ∈ ops, ∀ q ∈ ops, p.1 = q.1 → p.2 = q.2)
    (h : Follows expr ops data times count pass) (row : Nat) :
    (write ops data times row pass.scope).get? = rowScope ops data times row := by
  funext n
  rw [get?_write hops]
  cases hget : ops.get? n with
  | none => rw [h.scope n hget, Option.or_none]
  | some op =>
    rw [rowScope, hget]
    rfl

theorem Follows.step (hops : ∀ p ∈ ops, ∀ q ∈ ops, p.1 = q.1 → p.2 = q.2)
    (h : Follows expr ops data times count pass) :
    Follows expr ops data times (count + 1) (Pass.step expr ops data times pass count) := by
  have hscope : ∀ n, ops.get? n = none →
      (write ops data times count pass.scope).get? n = none := fun n hn => by
    rw [h.write_eq hops, rowScope, hn]
    rfl
  unfold Pass.step
  dsimp only
  rw [h.write_eq hops]
  cases hvalue : finiteValue? expr (rowScope ops data times count) with
  | none =>
    refine ⟨hscope, ?_, ?_⟩
    · rw [Evaluation.values_ofRows_succ, hvalue, ← h.values]
      rfl
    · rw [Evaluation.degraded_ofRows_succ, hvalue, ← h.degraded]
      exact Array.toList_push
  | some x =>
    refine ⟨hscope, ?_, ?_⟩
    · rw [Evaluation.values_ofRows_succ, hvalue, ← h.values]
      rfl
    · rw [Evaluation.degraded_ofRows_succ, hvalue, ← h.degraded]
      exact (List.append_nil _).symm

/-- A pass that is not called off takes one step for each row. -/
theorem run_eq (aborted : Nat → Bool) (pass : Pass) (row left : Nat) :
    run aborted expr ops data times pass row left =
      if (List.range' row left).any fun i => aborted i && isCheckpoint i then .error .cancelled
      else .ok ((List.range' row left).foldl (Pass.step expr ops data times) pass) := by
  induction left generalizing pass row with
  | zero => rfl
  | succ left ih =>
    rw [run, ih, List.range'_succ, List.any_cons, List.foldl_cons]
    cases aborted row && isCheckpoint row with
    | true => rfl
    | false => rfl

theorem Follows.foldl (hops : ∀ p ∈ ops, ∀ q ∈ ops, p.1 = q.1 → p.2 = q.2)
    (h : Follows expr ops data times count pass) (left : Nat) :
    Follows expr ops data times (count + left)
      ((List.range' count left).foldl (Pass.step expr ops data times) pass) := by
  induction left generalizing pass count with
  | zero => exact h
  | succ left ih =>
    rw [List.range'_succ, List.foldl_cons, ← Nat.add_assoc, Nat.add_right_comm]
    exact ih (h.step hops)

end

end Pass

/-- The single pass has the outcome of evaluating every row by itself. -/
theorem inSinglePass_eq (o : EvaluationOptions) (formula : Text) (b : Bindings)
    (data : Table Float) (times : Array Float) :
    Evaluation.inSinglePass o formula b data times =
      Evaluation.ofFormula o formula b data times := by
  unfold Evaluation.inSinglePass Evaluation.ofFormula
  split
  · rfl
  · dsimp only
    cases parse (substitute o.toScanOptions formula).text with
    | error e => rfl
    | ok expr =>
      dsimp only
      rw [Operand.resolveAll_eq]
      cases hops : operands (substitute o.toScanOptions formula).identifiers b data
          (substitute o.toScanOptions formula).references with
      | error e => rfl
      | ok ops =>
        have hfollows := (Pass.follows_start expr ops data times).foldl
          (fun p hp q hq => eq_of_mem_operands hops hp hq) data.size
        rw [← List.range_eq_range', Nat.zero_add] at hfollows
        dsimp only
        rw [Pass.run_eq, ← List.range_eq_range']
        unfold isCancelled
        cases (List.range data.size).any fun row => o.aborted row && isCheckpoint row with
        | true => rfl
        | false =>
          exact congrArg Except.ok (congrArg₂ Evaluation.mk hfollows.values hfollows.degraded)

/-! ## What is reported of a row -/

/-- The scope of a row made anew: the identifier of each reference has what the reference reads. -/
def freshScope (s : Substituted) (b : Bindings) (data : Table Float) (times : Array Float)
    (row : Nat) : Scope := fun name =>
  (s.references.find? fun r => s.identifiers.get? r.matched == some name).map
    (Reference.reading b data times row)

theorem rowScope_eq_freshScope {o : ScanOptions} {formula : Text} {b : Bindings}
    {data : Table Float} {ops : Assignment Operand}
    (hops : operands (substitute o formula).identifiers b data (references o formula) = .ok ops)
    (times : Array Float) (row : Nat) :
    rowScope ops data times row = freshScope (substitute o formula) b data times row := by
  have hcover := (cover_of_operands hops).1
  funext name
  unfold freshScope
  cases hfind : (substitute o formula).references.find? fun r =>
      (substitute o formula).identifiers.get? r.matched == some name with
  | none =>
    refine rowScope_eq_none hcover hops times row fun hname => ?_
    obtain ⟨m, hm, hi⟩ := Identifier.mem_identifiers_assign.1 hname
    obtain ⟨r, hr, rfl⟩ := List.mem_map.1 hm
    have hne := List.find?_eq_none.1 hfind r hr
    exact hne (beq_iff_eq.2 hi)
  | some r =>
    have hi : (substitute o formula).identifiers.get? r.matched = some name := by
      simpa using List.find?_some hfind
    have hr : r ∈ references o formula := List.mem_of_find?_eq_some hfind
    obtain ⟨column, hcolumn⟩ := hcover r hr
    rw [rowScope_identifier hcover hops hr hi hcolumn, Option.map_some,
      Reference.reading_eq hcolumn]

/-- What an evaluation says of a row, by the outcome of the expression there. -/
structure Evaluation.Reports (ev : Evaluation) (row : Nat) (outcome : Except EvalError Float) :
    Prop where
  value : ev.values[row]? = some ((finiteOutcome? outcome).getD 0.0)
  degraded : row ∈ ev.degraded ↔ ∀ x, outcome = .ok x → Number.isFinite x = false
  zero : ev.values[row]?.any Number.isZero = true ↔
    row ∈ ev.degraded ∨ ∃ x, outcome = .ok x ∧ Number.isZero x = true

theorem finiteOutcome?_eq_none_iff_forall {outcome : Except EvalError Float} :
    finiteOutcome? outcome = none ↔ ∀ x, outcome = .ok x → Number.isFinite x = false := by
  cases outcome with
  | error e => exact iff_of_true rfl fun x h => nomatch h
  | ok x =>
    rw [finiteOutcome?_eq_none_iff]
    constructor
    · rintro h y ⟨⟩
      exact h
    · intro h
      exact h x rfl

theorem Evaluation.reports_ofRows {count row : Nat} (hrow : row < count)
    (outcome : Nat → Except EvalError Float) :
    (ofRows count fun i => finiteOutcome? (outcome i)).Reports row (outcome row) := by
  have hvalue := getElem?_ofRows hrow fun i => finiteOutcome? (outcome i)
  have hdegraded : row ∈ (ofRows count fun i => finiteOutcome? (outcome i)).degraded ↔
      finiteOutcome? (outcome row) = none := by
    rw [mem_degraded_ofRows]
    exact and_iff_right hrow
  refine ⟨hvalue, hdegraded.trans finiteOutcome?_eq_none_iff_forall, ?_⟩
  rw [hvalue, hdegraded, Option.any_some]
  cases houtcome : outcome row with
  | error e => exact iff_of_true rfl (Or.inl rfl)
  | ok x =>
    by_cases hx : Number.isFinite x = true
    · rw [finiteOutcome?, if_pos hx, Option.getD_some]
      constructor
      · exact fun hzero => Or.inr ⟨x, rfl, hzero⟩
      · rintro (h | ⟨y, ⟨⟩, hzero⟩)
        · cases h
        · exact hzero
    · rw [finiteOutcome?, if_neg hx]
      exact iff_of_true rfl (Or.inl rfl)

theorem Evaluation.degraded_of_ofFormula {o : EvaluationOptions} {formula : Text} {b : Bindings}
    {data : Table Float} {times : Array Float} {ev : Evaluation}
    (h : ofFormula o formula b data times = .ok ev) :
    ev.degraded.Pairwise (· < ·) ∧ ∀ row ∈ ev.degraded, row < data.size := by
  obtain ⟨outcome, rfl⟩ := exists_ofRows_of_ofFormula h
  refine ⟨?_, fun row hrow => (mem_degraded_ofRows.1 hrow).1⟩
  rw [degraded_ofRows]
  exact List.pairwise_lt_range.filter _

/-- Neither the scope that is kept from row to row nor the statistics that are kept for a column can
be told from the outcome. Where there is one, it has a finite value for each row, which is that of
the expression in a scope made anew, and the rows without one are listed in their order. -/
theorem inSinglePass_reports (o : EvaluationOptions) (formula : Text) (b : Bindings)
    (data : Table Float) (times : Array Float) :
    Evaluation.inSinglePass o formula b data times = Evaluation.ofFormula o formula b data times ∧
    ∀ ev, Evaluation.inSinglePass o formula b data times = .ok ev →
      ev.values.size = data.size ∧ (∀ x ∈ ev.values, Number.isFinite x = true) ∧
      ev.degraded.Pairwise (· < ·) ∧ (∀ row ∈ ev.degraded, row < data.size) ∧
      (∀ row < data.size, ∃ expr,
        parse (substitute o.toScanOptions formula).text = .ok expr ∧
        ev.Reports row
          (expr.eval (freshScope (substitute o.toScanOptions formula) b data times row))) ∧
      evaluate o formula b data times = .ok ev.values ∧
      ∀ count, preview o formula b data times count = .ok (ev.values.take count) := by
  refine ⟨inSinglePass_eq o formula b data times, fun ev h => ?_⟩
  rw [inSinglePass_eq] at h
  obtain ⟨hsize, hfinite⟩ := Evaluation.values_of_ofFormula h
  obtain ⟨hsorted, hrows⟩ := Evaluation.degraded_of_ofFormula h
  have hevaluate := evaluate_eq_ok_iff.2 ⟨ev, h, rfl⟩
  refine ⟨hsize, hfinite, hsorted, hrows, fun row hrow => ?_, hevaluate, fun count => ?_⟩
  · obtain ⟨expr, ops, hparse, hops, rfl⟩ :=
      Evaluation.eq_ofRows_of_ofFormula h (Nat.ne_of_gt (Nat.zero_lt_of_lt hrow))
    refine ⟨expr, hparse, ?_⟩
    rw [← rowScope_eq_freshScope hops]
    exact Evaluation.reports_ofRows hrow fun i => expr.eval (rowScope ops data times i)
  · rw [preview, hevaluate]
    rfl

/-- Three references to one channel, where a row is empty and two rows in between have no value. -/
theorem inSinglePass_reports_ragged :
    ∃ ev, Evaluation.inSinglePass {} "(RPM-1)/RPM[1]+_max_RPM" [("RPM", 0)]
        #[#[3.0], #[2.0], #[], #[4.0]] #[0.0] = .ok ev ∧
      ev.values.size = 4 ∧ ev.degraded.Pairwise (· < ·) ∧
      (∀ row < 4, ∃ expr,
        parse (substitute {} "(RPM-1)/RPM[1]+_max_RPM").text = .ok expr ∧
        ev.Reports row (expr.eval (freshScope (substitute {} "(RPM-1)/RPM[1]+_max_RPM")
          [("RPM", 0)] #[#[3.0], #[2.0], #[], #[4.0]] #[0.0] row))) ∧
      preview {} "(RPM-1)/RPM[1]+_max_RPM" [("RPM", 0)] #[#[3.0], #[2.0], #[], #[4.0]] #[0.0] 2 =
        .ok (ev.values.take 2) := by
  have hok : (Evaluation.inSinglePass {} "(RPM-1)/RPM[1]+_max_RPM" [("RPM", 0)]
      #[#[3.0], #[2.0], #[], #[4.0]] #[0.0]).isOk = true := by
    decide +kernel
  obtain ⟨-, h⟩ := inSinglePass_reports {} "(RPM-1)/RPM[1]+_max_RPM" [("RPM", 0)]
    #[#[3.0], #[2.0], #[], #[4.0]] #[0.0]
  generalize Evaluation.inSinglePass {} _ _ _ _ = outcome at hok h ⊢
  cases outcome with
  | error e => cases hok
  | ok ev =>
    obtain ⟨hsize, -, hsorted, -, hrows, -, hpreview⟩ := h ev rfl
    exact ⟨ev, rfl, hsize, hsorted, hrows, hpreview 2⟩

end VirtualChannels
