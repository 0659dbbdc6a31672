import VirtualChannels.Proofs.Instance.Runs

/-
  What calls run and what they write. An application binds and evaluates, a reading does what is
  still to be done where there is neither a value nor an error; each such attempt ends as the
  instance holds it, and only one that fails is written to the journal. So an error stands, in
  silence, until the next application (`error_stands_until_applied`).
-/

namespace VirtualChannels.Instance

def Call.isApply : Call → Bool
  | .apply _ _ => true
  | _ => false

/-- The entries of a run, the first one written in front. -/
def journal (i : Instance) : List Call → List Journal.Entry
  | [] => []
  | c :: earlier => i.journal earlier ++ (i.run earlier).entries c

/-! ## Failures -/

/-- The error of a call that runs something which fails. -/
def failure? (i : Instance) (c : Call) : Option FormulaFault := (i.attempt? c).bind fault?

/-- The errors of the calls of a run that ran something which failed, one for each such call. -/
def failures (i : Instance) : List Call → List FormulaFault
  | [] => []
  | c :: earlier => i.failures earlier ++ ((i.run earlier).failure? c).toList

/-! ## One call -/

section
variable (i : Instance)

theorem template_after (c : Call) : (i.after c).template = i.template := by
  rcases i.call_cases c with ⟨columns, outcome, -, hafter, -⟩ | ⟨-, hafter | hafter, -⟩
  · rw [hafter]
    rfl
  · rw [hafter]
  · rw [hafter]
    rfl

/-- What a call runs ends as the instance holds it from then on. -/
theorem fields_after_of_attempt {c : Call} {outcome : Except FormulaFault (Array Float)}
    (h : i.attempt? c = some outcome) :
    (i.after c).data? = outcome.toOption ∧ (i.after c).error? = fault? outcome := by
  rcases i.call_cases c with ⟨columns, outcome', hattempt, hafter, -⟩ | ⟨hattempt, -⟩
  · cases hattempt.symm.trans h
    rw [hafter]
    exact ⟨rfl, rfl⟩
  · cases hattempt.symm.trans h

/-- A call writes about what it ran if that failed, else nothing. -/
theorem entries_eq (c : Call) :
    i.entries c = (i.failure? c).toList.flatMap (warning i.template) := by
  unfold failure?
  rcases i.call_cases c with ⟨columns, outcome, hattempt, -, hentries⟩ | ⟨hattempt, -, hentries⟩
  · rw [hattempt, hentries]
    rfl
  · rw [hattempt, hentries]
    rfl

end

/-! ## While an error stands -/

/-- There is an error and nothing to read. The second part is due to the calls before. -/
structure IsFailed (i : Instance) : Prop where
  error : i.error? ≠ none
  data : i.data? = none

namespace IsFailed

variable {i : Instance} (h : i.IsFailed)

include h

theorem pending?_eq_none (target : Recording × EvaluationOptions) : i.pending? target = none :=
  (i.pending?_eq_none_iff target).2 (Or.inr h.error)

theorem read_eq (recording : Recording) (options : EvaluationOptions) :
    i.read recording options = ⟨none, i, []⟩ := by
  rw [read_of_not_pending i recording options (h.pending?_eq_none _), h.data]

theorem readAt_eq (recording : Recording) (row : Float) :
    i.readAt recording row = ⟨0.0, i, []⟩ := by
  have hvalue : valueIn none row = 0.0 := by
    unfold valueIn
    cases Number.toNat? row <;> rfl
  rw [readAt, h.read_eq]
  dsimp only
  rw [hvalue]

/-- Only an application changes something. -/
theorem after_eq {c : Call} (hc : c.isApply = false) : i.after c = i := by
  cases c with
  | apply recording options => cases hc
  | read recording options => exact congrArg Outcome.state (h.read_eq recording options)
  | readAt recording row => exact congrArg Outcome.state (h.readAt_eq recording row)
  | forget =>
    show { i with data? := none } = i
    rw [← h.data]

theorem failure?_eq_none {c : Call} (hc : c.isApply = false) : i.failure? c = none := by
  cases c with
  | apply recording options => cases hc
  | read recording options => exact congrArg (Option.bind · fault?) (h.pending?_eq_none _)
  | readAt recording row => exact congrArg (Option.bind · fault?) (h.pending?_eq_none _)
  | forget => rfl

theorem run_eq {calls : List Call} (hcalls : ∀ c ∈ calls, c.isApply = false) :
    i.run calls = i ∧ i.failures calls = [] := by
  induction calls with
  | nil => exact ⟨rfl, rfl⟩
  | cons c earlier ih =>
    have hc : c.isApply = false := hcalls c List.mem_cons_self
    obtain ⟨hrun, hfailures⟩ := ih fun c' hc' => hcalls c' (List.mem_cons_of_mem c hc')
    constructor
    · rw [run, hrun, h.after_eq hc]
    · rw [failures, hrun, hfailures, h.failure?_eq_none hc]
      rfl

end IsFailed

/-! ## Runs -/

theorem template_run (i : Instance) (calls : List Call) :
    (i.run calls).template = i.template := by
  induction calls with
  | nil => rfl
  | cons c earlier ih => exact (template_after _ c).trans ih

theorem journal_eq (i : Instance) (calls : List Call) :
    i.journal calls = (i.failures calls).flatMap (warning i.template) := by
  induction calls with
  | nil => rfl
  | cons c earlier ih =>
    rw [journal, failures, List.flatMap_append, ih, entries_eq, template_run]

/-- Every failure is one entry, and that a warning. -/
theorem countP_warning (t : Template) (es : List FormulaFault) :
    (es.flatMap (warning t)).countP (fun entry => entry.level = .warn) = es.length := by
  induction es with
  | nil => rfl
  | cons e rest ih =>
    have hone : (warning t e).countP (fun entry => entry.level = .warn) = 1 := rfl
    rw [List.flatMap_cons, List.countP_append, hone, ih, List.length_cons, Nat.add_comm]

/-- After any run that left an error, an instance stays as it is whatever is called but an
application: it has no values, answers none, and writes nothing. Over any calls the journal
holds one warning for each call that ran a binding or an evaluation which failed, where what a
call runs is what the instance holds afterwards. -/
theorem error_stands_until_applied (t : Template) (earlier calls : List Call) (i : Instance)
    (hi : (ofTemplate t).run earlier = i) :
    (∀ e, i.error? = some e → (∀ c ∈ calls, c.isApply = false) →
      i.run calls = i ∧ i.data? = none ∧ i.journal calls = [] ∧
        ∀ recording options row, ((i.run calls).read recording options).answer = none ∧
          ((i.run calls).readAt recording row).answer = 0.0) ∧
    i.journal calls = (i.failures calls).flatMap (warning t) ∧
    (i.journal calls).countP (fun entry => entry.level = .warn) = (i.failures calls).length ∧
    ∀ c outcome, (i.run calls).attempt? c = some outcome →
      ((i.run calls).after c).data? = outcome.toOption ∧
        ((i.run calls).after c).error? = fault? outcome := by
  have htemplate : i.template = t := by
    rw [← hi]
    exact template_run (ofTemplate t) earlier
  refine ⟨fun e he hcalls => ?_, ?_, ?_, fun c outcome => fields_after_of_attempt _⟩
  · have hfailed : i.IsFailed := by
      have herror : i.error? ≠ none := he ▸ Option.some_ne_none e
      have hexclusive : i.IsExclusive := hi ▸ isExclusive_run t earlier
      exact ⟨herror, hexclusive.resolve_right herror⟩
    obtain ⟨hrun, hfailures⟩ := hfailed.run_eq hcalls
    have hjournal : i.journal calls = [] := by
      rw [journal_eq, hfailures]
      rfl
    refine ⟨hrun, hfailed.data, hjournal, fun recording options row => ?_⟩
    rw [hrun, hfailed.read_eq, hfailed.readAt_eq]
    exact ⟨rfl, rfl⟩
  · rw [journal_eq, htemplate]
  · rw [journal_eq, countP_warning]

/-- A channel was missing; that a recording to be read has it does not matter. -/
theorem error_stands_for_missing_boost :
    ∃ i : Instance,
      (ofTemplate (.create "1" ⟨0⟩ { name := "Ratio", formula := "RPM/Boost" })).run
        [.apply ⟨["RPM"], #[#[1.0]], #[0.0], []⟩ {},
          .apply ⟨["RPM", "Boost"], #[#[1.0, 2.0]], #[0.0], []⟩ {}] = i ∧
      i.error? = some (.channelNotFound "Boost") ∧ i.data? = none ∧
      i.run [.readAt ⟨["RPM", "Boost"], #[#[1.0, 2.0]], #[0.0], []⟩ 0.0, .forget,
        .read ⟨["RPM", "Boost"], #[#[1.0, 2.0]], #[0.0], []⟩ {}] = i ∧
      i.journal [.readAt ⟨["RPM", "Boost"], #[#[1.0, 2.0]], #[0.0], []⟩ 0.0, .forget,
        .read ⟨["RPM", "Boost"], #[#[1.0, 2.0]], #[0.0], []⟩ {}] = [] := by
  have herror : ((ofTemplate (.create "1" ⟨0⟩ { name := "Ratio", formula := "RPM/Boost" })).run
      [.apply ⟨["RPM"], #[#[1.0]], #[0.0], []⟩ {},
        .apply ⟨["RPM", "Boost"], #[#[1.0, 2.0]], #[0.0], []⟩ {}]).error? =
      some (.channelNotFound "Boost") := by
    with_unfolding_all rfl
  obtain ⟨hrun, hdata, hjournal, -⟩ := (error_stands_until_applied
    (.create "1" ⟨0⟩ { name := "Ratio", formula := "RPM/Boost" })
    [.apply ⟨["RPM"], #[#[1.0]], #[0.0], []⟩ {},
      .apply ⟨["RPM", "Boost"], #[#[1.0, 2.0]], #[0.0], []⟩ {}]
    [.readAt ⟨["RPM", "Boost"], #[#[1.0, 2.0]], #[0.0], []⟩ 0.0, .forget,
      .read ⟨["RPM", "Boost"], #[#[1.0, 2.0]], #[0.0], []⟩ {}] _ rfl).1 _ herror
    (by simp [Call.isApply])
  exact ⟨_, rfl, herror, hdata, hrun, hjournal⟩

end VirtualChannels.Instance
