import VirtualChannels.Proofs.Instance.Provenance
import VirtualChannels.Proofs.Instance.Reapplying

/-
  Readers of an instance whose values are forgotten. A reading at a row evaluates with the default
  options, whatever the application was given: so readers do not notice that values were forgotten
  exactly if the default options lead to the same values (`readings_after_forgetting`), as they do
  wherever they find the same references in the formula.
-/

namespace VirtualChannels

/-! ## Options that find the same references -/

section
variable {o o' : ScanOptions} {formula : Text}

theorem references_congr (h : segments o formula = segments o' formula) :
    references o formula = references o' formula := by
  unfold references
  rw [h]

theorem substitute_congr (h : segments o formula = segments o' formula) :
    substitute o formula = substitute o' formula := by
  unfold substitute
  rw [references_congr h, h]

end

/-- Where the default options find the same references, an evaluation that does not fail is the
same with them: they call nothing off. -/
theorem Evaluation.ofFormula_default {o : EvaluationOptions} {formula : Text} {b : Bindings}
    {data : Table Float} {times : Array Float} {ev : Evaluation}
    (hs : segments o.toScanOptions formula = segments {} formula)
    (h : ofFormula o formula b data times = .ok ev) :
    ofFormula {} formula b data times = .ok ev := by
  by_cases hd : data.size = 0
  · rw [ofFormula_of_empty hd] at h ⊢
    exact h
  · obtain ⟨expr, ops, hparse, hops, rfl⟩ := eq_ofRows_of_ofFormula h hd
    rw [substitute_congr hs] at hparse
    rw [substitute_congr hs, references_congr hs] at hops
    have hops' : operands (substitute {} formula).identifiers b data
        (substitute {} formula).references = .ok ops := hops
    rw [ofFormula, if_neg hd]
    simp only [hparse, hops', isCancelled_never, finiteValue?_eq]
    rfl

namespace Instance

/-- The calls that read rows of a recording or forget the values. -/
def Call.ReadsOrForgets (recording : Recording) : Call → Prop
  | .readAt r _ => r = recording
  | .forget => True
  | _ => False

/-- However often the values are forgotten between readings, a reading at a row of the recording
gives the value that the instance has now, and leaves the instance as it is now. -/
def HidesForgetting (i : Instance) (recording : Recording) : Prop :=
  ∀ calls : List Call, (∀ c ∈ calls, c.ReadsOrForgets recording) → ∀ row,
    (i.run calls).readAt recording row = ⟨valueIn i.data? row, i, []⟩ ∧
      (Source.computed (i.run calls)).readAt recording row =
        (valueIn i.data? row, .computed i)

section
variable {t : Template} {b : Bindings} {xs : Array Float} {recording : Recording}

/-- The first reading after the values were forgotten. -/
theorem readAt_forget (t : Template) (b : Bindings) (xs : Array Float) (recording : Recording)
    (row : Float) :
    (ofAttempt t (some b) (.ok xs)).forget.readAt recording row =
      { answer := valueIn (valuesWith t b (recording, {})).toOption row
        state := ofAttempt t (some b) (valuesWith t b (recording, {}))
        journal := warnings t (valuesWith t b (recording, {})) } := by
  rw [readAt, read_forget]

/-- The instance, or what is left of it once its values are forgotten. -/
def UpToForgetting (applied i : Instance) : Prop := i = applied ∨ i = applied.forget

theorem UpToForgetting.readAt {i : Instance}
    (hi : UpToForgetting (ofAttempt t (some b) (.ok xs)) i)
    (h : valuesWith t b (recording, {}) = .ok xs) (row : Float) :
    i.readAt recording row = ⟨valueIn (some xs) row, ofAttempt t (some b) (.ok xs), []⟩ := by
  rcases hi with rfl | rfl
  · rfl
  · rw [readAt_forget, h]
    rfl

theorem UpToForgetting.after {i : Instance}
    (hi : UpToForgetting (ofAttempt t (some b) (.ok xs)) i)
    (h : valuesWith t b (recording, {}) = .ok xs) {c : Call} (hc : c.ReadsOrForgets recording) :
    UpToForgetting (ofAttempt t (some b) (.ok xs)) (i.after c) := by
  cases c with
  | apply r options => exact hc.elim
  | read r options => exact hc.elim
  | readAt r row =>
    cases hc
    exact Or.inl (congrArg Outcome.state (hi.readAt h row))
  | forget =>
    refine Or.inr ?_
    rcases hi with rfl | rfl
    · rfl
    · rfl

/-- Where a reading brings the values back, every call finds them present or forgotten. -/
theorem upToForgetting_run (h : valuesWith t b (recording, {}) = .ok xs) {calls : List Call}
    (hcalls : ∀ c ∈ calls, c.ReadsOrForgets recording) :
    UpToForgetting (ofAttempt t (some b) (.ok xs)) ((ofAttempt t (some b) (.ok xs)).run calls) := by
  induction calls with
  | nil => exact Or.inl rfl
  | cons c earlier ih =>
    have hi := ih fun c' hc' => hcalls c' (List.mem_cons_of_mem c hc')
    exact hi.after h (hcalls c List.mem_cons_self)

theorem hidesForgetting_iff :
    (ofAttempt t (some b) (.ok xs)).HidesForgetting recording ↔
      valuesWith t b (recording, {}) = .ok xs := by
  constructor
  · intro h
    obtain ⟨hread, -⟩ := h [.forget] (fun c hc => by cases List.mem_singleton.1 hc; trivial) 0.0
    have hdata : (valuesWith t b (recording, {})).toOption = some xs :=
      congrArg (fun o => o.state.data?) ((readAt_forget t b xs recording 0.0).symm.trans hread)
    exact toOption_eq_some_iff.1 hdata
  · intro h calls hcalls row
    have hread := (upToForgetting_run h hcalls).readAt h row
    refine ⟨hread, ?_⟩
    show (_, Source.computed _) = _
    rw [hread]
    rfl

end

/-- An application that succeeded leaves values, which every reading of the recording finds. Once
they are forgotten the next reading evaluates with the present bindings and the default options.
So readers notice nothing exactly if that comes to the same values, and it does if the default
options find in the formula what the options of the application did. -/
theorem readings_after_forgetting (t : Template) (calls : List Call) (recording : Recording)
    (options : EvaluationOptions) (applied : Outcome Bool)
    (happlied : ((ofTemplate t).run calls).apply recording options = applied)
    (hanswer : applied.answer = true) :
    applied.state.hasValues = true ∧ applied.state.bound = true ∧
      ∃ b xs, applied.state.bindings = b ∧ applied.state.data? = some xs ∧
      applied.state.error? = none ∧ valuesWith t b (recording, options) = .ok xs ∧
      (∀ row, applied.state.readAt recording row =
        ⟨valueIn (some xs) row, applied.state, []⟩) ∧
      (∀ row, applied.state.forget.readAt recording row =
        { answer := valueIn (valuesWith t b (recording, {})).toOption row
          state := ofAttempt t (some b) (valuesWith t b (recording, {}))
          journal := warnings t (valuesWith t b (recording, {})) }) ∧
      (applied.state.HidesForgetting recording ↔ valuesWith t b (recording, {}) = .ok xs) ∧
      (segments options.toScanOptions t.formula = segments {} t.formula →
        applied.state.HidesForgetting recording) := by
  have htemplate : ((ofTemplate t).run calls).template = t := template_run (ofTemplate t) calls
  subst happlied
  obtain ⟨b, xs, hv, happlied⟩ := apply_of_answer hanswer
  rw [htemplate] at hv happlied
  rw [happlied]
  refine ⟨rfl, rfl, b, xs, rfl, rfl, rfl, hv, fun row => rfl, readAt_forget t b xs recording,
    hidesForgetting_iff, fun hs => ?_⟩
  obtain ⟨ev, hev, hxs⟩ := evaluate_eq_ok_iff.1 hv
  exact hidesForgetting_iff.2
    (evaluate_eq_ok_iff.2 ⟨ev, Evaluation.ofFormula_default hs hev, hxs⟩)

/-- With other reserved names the formula is read as before. -/
theorem readings_after_forgetting_mean :
    ∃ applied : Outcome Bool,
      ((ofTemplate (.create "1" ⟨0⟩ { name := "Mean", formula := "_mean_RPM-RPM" })).run []).apply
        ⟨["RPM"], #[#[1000.0], #[3000.0]], #[0.0, 1.0], []⟩ { reserved := ["boost"] } = applied ∧
      applied.answer = true ∧
      segments { reserved := ["boost"] } "_mean_RPM-RPM" = segments {} "_mean_RPM-RPM" ∧
      applied.state.HidesForgetting ⟨["RPM"], #[#[1000.0], #[3000.0]], #[0.0, 1.0], []⟩ := by
  have hanswer : (((ofTemplate (.create "1" ⟨0⟩
      { name := "Mean", formula := "_mean_RPM-RPM" })).run []).apply
        ⟨["RPM"], #[#[1000.0], #[3000.0]], #[0.0, 1.0], []⟩
        { reserved := ["boost"] }).answer = true := by
    decide +kernel
  have hs : segments { reserved := ["boost"] } "_mean_RPM-RPM" = segments {} "_mean_RPM-RPM" := by
    with_unfolding_all rfl
  obtain ⟨-, -, b, xs, -, -, -, -, -, -, -, hhides⟩ := readings_after_forgetting
    (.create "1" ⟨0⟩ { name := "Mean", formula := "_mean_RPM-RPM" }) []
    ⟨["RPM"], #[#[1000.0], #[3000.0]], #[0.0, 1.0], []⟩ { reserved := ["boost"] } _ rfl hanswer
  exact ⟨_, rfl, hanswer, hs, hhides hs⟩

/-- A statistic that only the options of the application name is lost: read again, the formula
asks for a channel that nothing is bound to. -/
theorem average_lost_after_forgetting :
    ∃ applied : Outcome Bool,
      (ofTemplate (.create "1" ⟨0⟩ { name := "Average", formula := "avg_RPM" })).apply
        ⟨["RPM"], #[#[1000.0], #[3000.0]], #[0.0, 1.0], []⟩
        { statistics := [("avg_", .mean)] } = applied ∧
      applied.answer = true ∧
      (applied.state.readAt ⟨["RPM"], #[#[1000.0], #[3000.0]], #[0.0, 1.0], []⟩ 0.0).answer =
        2000.0 ∧
      ∃ read, applied.state.forget.readAt
          ⟨["RPM"], #[#[1000.0], #[3000.0]], #[0.0, 1.0], []⟩ 0.0 = read ∧
        read.answer = 0.0 ∧ read.state.error? = some (.channelNotBound "avg_RPM") ∧
        read.state.hasValues = false := by
  refine ⟨_, rfl, by decide +kernel, by decide +kernel, _, rfl, by decide +kernel, ?_, ?_⟩
  · with_unfolding_all rfl
  · with_unfolding_all rfl

end Instance

end VirtualChannels
