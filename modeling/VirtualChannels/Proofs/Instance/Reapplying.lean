import VirtualChannels.Proofs.Instance.Attempts

/-
  Applying a template anew. What an application comes to does not depend on what was done with
  the instance before; and where values are forgotten, reading the same recording brings the
  instance back to what its application left.
-/

namespace VirtualChannels.Instance

theorem apply_congr {i i' : Instance} (h : i.template = i'.template) (recording : Recording)
    (options : EvaluationOptions) : i.apply recording options = i'.apply recording options := by
  rw [apply_eq, apply_eq, h]

/-- An application succeeds exactly if the channels are bound and the rows then evaluated. -/
theorem isOk_valuesFor_iff {t : Template} {target : Recording × EvaluationOptions} :
    (valuesFor t target).isOk = true ↔ ∃ b xs,
      bindReferences (references target.2.toScanOptions t.formula) target.1.channels = .ok b ∧
        evaluate target.2 t.formula b target.1.data target.1.times = .ok xs := by
  have hok : (valuesFor t target).isOk = true ↔ ∃ xs, valuesFor t target = .ok xs := by
    cases valuesFor t target with
    | error e => simp [Except.isOk, Except.toBool]
    | ok xs => simp [Except.isOk, Except.toBool]
  rw [hok]
  simp only [valuesFor_eq_ok_iff, columns?_eq_some_iff]
  exact exists_comm

/-- An application that succeeds leaves bindings and the values for them. -/
theorem apply_of_answer {i : Instance} {recording : Recording} {options : EvaluationOptions}
    (h : (i.apply recording options).answer = true) :
    ∃ b xs, valuesWith i.template b (recording, options) = .ok xs ∧
      i.apply recording options = ⟨true, ofAttempt i.template (some b) (.ok xs), []⟩ := by
  rw [apply_eq] at h ⊢
  obtain ⟨b, xs, hb, hv⟩ := isOk_valuesFor_iff.1 h
  have hcolumns : columns? i.template (recording, options) = some b := columns?_eq_some_iff.2 hb
  have hvalues : valuesFor i.template (recording, options) = .ok xs :=
    valuesFor_eq_ok_iff.2 ⟨b, hcolumns, hv⟩
  rw [hcolumns, hvalues]
  exact ⟨b, xs, hv, rfl⟩

/-- What an instance with bindings whose values were forgotten does when it is read. -/
theorem read_forget (t : Template) (b : Bindings) (xs : Array Float) (recording : Recording)
    (options : EvaluationOptions) :
    (ofAttempt t (some b) (.ok xs)).forget.read recording options =
      { answer := (valuesWith t b (recording, options)).toOption
        state := ofAttempt t (some b) (valuesWith t b (recording, options))
        journal := warnings t (valuesWith t b (recording, options)) } :=
  read_of_pending (ofAttempt t (some b) (.ok xs)).forget recording options rfl

theorem run_replicate_forget (i : Instance) (n : Nat) :
    i.run (List.replicate (n + 1) .forget) = i.forget := by
  induction n with
  | zero => rfl
  | succ n ih =>
    rw [List.replicate_succ, run, ih]
    rfl

/-- Values that are forgotten come back with the first reading of their recording. -/
theorem read_of_forgotten {t : Template} {b : Bindings} {xs : Array Float} {recording : Recording}
    {options : EvaluationOptions} (h : valuesWith t b (recording, options) = .ok xs) (n : Nat) :
    ((ofAttempt t (some b) (.ok xs)).run (List.replicate n .forget)).read recording options =
      ⟨some xs, ofAttempt t (some b) (.ok xs), []⟩ := by
  cases n with
  | zero => rfl
  | succ n =>
    rw [run_replicate_forget, read_forget, h]
    rfl

/-- After any two runs of one template an application gives the same answer, the same instance
in all of its fields, and the same journal entries. It succeeds exactly if the channels are
bound and the rows evaluated; and then, however often the values are forgotten, reading the same
again gives them and the same instance. -/
theorem apply_forgets_and_is_restored (t : Template) (calls calls' : List Call)
    (recording : Recording) (options : EvaluationOptions) :
    ((ofTemplate t).run calls).apply recording options =
        ((ofTemplate t).run calls').apply recording options ∧
      ((((ofTemplate t).run calls).apply recording options).answer = true ↔ ∃ b xs,
        bindReferences (references options.toScanOptions t.formula) recording.channels = .ok b ∧
          evaluate options t.formula b recording.data recording.times = .ok xs) ∧
      ∀ applied, ((ofTemplate t).run calls).apply recording options = applied →
        applied.answer = true → ∀ n, ∃ xs, applied.state.data? = some xs ∧
          (applied.state.run (List.replicate n .forget)).read recording options =
            ⟨some xs, applied.state, []⟩ := by
  have htemplate (calls : List Call) : ((ofTemplate t).run calls).template = t :=
    template_run (ofTemplate t) calls
  refine ⟨apply_congr ((htemplate calls).trans (htemplate calls').symm) recording options, ?_, ?_⟩
  · rw [apply_eq, htemplate]
    exact isOk_valuesFor_iff
  · rintro applied rfl hanswer n
    obtain ⟨b, xs, hv, happlied⟩ := apply_of_answer hanswer
    rw [htemplate] at hv happlied
    rw [happlied]
    exact ⟨xs, rfl, read_of_forgotten hv n⟩

/-- A template that failed before is applied to a recording with its channels; the values are
forgotten twice. -/
theorem apply_forgets_and_is_restored_ratio :
    ∃ applied : Outcome Bool,
      ((ofTemplate (.create "1" ⟨0⟩ { name := "Ratio", formula := "RPM/Boost" })).run
          [.apply ⟨["RPM"], #[#[1.0]], #[0.0], []⟩ {}]).apply
        ⟨["Boost", "RPM"], #[#[2.0, 1.0], #[4.0, 0.0]], #[0.0, 0.5], []⟩ {} = applied ∧
      applied.answer = true ∧ ∃ xs, applied.state.data? = some xs ∧
        (applied.state.run [.forget, .forget]).read
            ⟨["Boost", "RPM"], #[#[2.0, 1.0], #[4.0, 0.0]], #[0.0, 0.5], []⟩ {} =
          ⟨some xs, applied.state, []⟩ := by
  obtain ⟨-, -, h⟩ := apply_forgets_and_is_restored
    (.create "1" ⟨0⟩ { name := "Ratio", formula := "RPM/Boost" })
    [.apply ⟨["RPM"], #[#[1.0]], #[0.0], []⟩ {}] []
    ⟨["Boost", "RPM"], #[#[2.0, 1.0], #[4.0, 0.0]], #[0.0, 0.5], []⟩ {}
  have hanswer : (((ofTemplate (.create "1" ⟨0⟩ { name := "Ratio", formula := "RPM/Boost" })).run
      [.apply ⟨["RPM"], #[#[1.0]], #[0.0], []⟩ {}]).apply
        ⟨["Boost", "RPM"], #[#[2.0, 1.0], #[4.0, 0.0]], #[0.0, 0.5], []⟩ {}).answer = true := by
    decide +kernel
  exact ⟨_, rfl, hanswer, h _ rfl hanswer 2⟩

end VirtualChannels.Instance
