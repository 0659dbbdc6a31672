import VirtualChannels.Proofs.Instance.Runs
import VirtualChannels.Proofs.Recording.Rows

/-
  Where the bindings and the values of an instance come from. Which recording they belong to is
  read off the calls alone: the bindings off the last application, the values off the last call
  that asked for new ones. Each call preserves this (`Traced.after`), so it holds after any run
  (`consistent_run`).
-/

namespace VirtualChannels.Instance

/-- Whether a call applies the template: an application does, and so does the first reading of
an instance that was never applied. -/
def Call.applies (earlier : List Call) : Call → Bool
  | .apply _ _ => true
  | .read _ _ | .readAt _ _ => earlier.all isForget
  | .forget => false

/-- Whether a call asks for new values: an application does, and so does a reading that comes
first or directly after the values were forgotten. -/
def Call.asksAnew (earlier : List Call) : Call → Bool
  | .apply _ _ => true
  | .read _ _ | .readAt _ _ => earlier.head?.all isForget
  | .forget => false

/-- What the last call that is chosen is about. -/
def lastTarget? (chosen : List Call → Call → Bool) :
    List Call → Option (Recording × EvaluationOptions)
  | [] => none
  | c :: earlier => if chosen earlier c then c.target? else lastTarget? chosen earlier

/-- What holds of an instance of a template after calls. -/
structure Consistent (t : Template) (calls : List Call) (i : Instance) : Prop where
  template : i.template = t
  exclusive : i.data? = none ∨ i.error? = none
  hasValues : i.hasValues = true ↔ i.data?.isSome = true ∧ i.error? = none
  /-- An instance that is not bound has no bindings and no values. -/
  unbound : i.bound = false → i.bindings = [] ∧ i.data? = none
  /-- It is bound exactly if there was an application and the last one found its channels. -/
  bound : i.bound = ((lastTarget? Call.applies calls).bind (columns? t)).isSome
  /-- The bindings are those that the last application made, if it made any. -/
  bindings : i.bindings = ((lastTarget? Call.applies calls).bind (columns? t)).getD []
  /-- The values are those for the recording and the options of the call that asked for them. -/
  cached : ∀ xs, i.data? = some xs → ∃ recording options,
    lastTarget? Call.asksAnew calls = some (recording, options) ∧
    evaluate options t.formula i.bindings recording.data recording.times = .ok xs ∧
    xs.size = recording.data.size ∧ ∀ x ∈ xs, Number.isFinite x = true

/-! ## What one call preserves -/

/-- The fields after a run as the calls tell them. With neither values nor an error a reading would
ask for new values, and on an instance that is not bound it would apply the template. -/
structure Traced (t : Template) (calls : List Call) (i : Instance) : Prop where
  template : i.template = t
  bound : i.bound = ((lastTarget? Call.applies calls).bind (columns? t)).isSome
  bindings : i.bindings = ((lastTarget? Call.applies calls).bind (columns? t)).getD []
  fresh : calls.all Call.isForget = true ↔ i.data? = none ∧ i.error? = none ∧ i.bound = false
  blank : i.data? = none → i.error? = none → calls.head?.all Call.isForget = true
  values : ∀ xs, i.data? = some xs → calls.head?.all Call.isForget = false ∧ i.bound = true ∧
    ∃ target, lastTarget? Call.asksAnew calls = some target ∧
      valuesWith t i.bindings target = .ok xs

section
variable {t : Template} {calls : List Call} {i : Instance}

theorem data?_or_error?_ofAttempt (columns : Option Bindings)
    (outcome : Except FormulaFault (Array Float)) :
    (ofAttempt t columns outcome).data? = none → (ofAttempt t columns outcome).error? ≠ none := by
  cases outcome with
  | ok xs => simp [Except.toOption]
  | error e => simp [fault?]

/-- An attempt that a call makes is traced if its bindings are those of the last application and its
values are for them. -/
theorem traced_ofAttempt {c : Call} {target : Recording × EvaluationOptions}
    {columns : Option Bindings} {outcome : Except FormulaFault (Array Float)}
    (hf : c.isForget = false) (htarget : c.target? = some target)
    (hasks : c.asksAnew calls = true)
    (hcolumns : columns = (lastTarget? Call.applies (c :: calls)).bind (columns? t))
    (hvalues : ∀ xs, outcome = .ok xs → ∃ b, columns = some b ∧ valuesWith t b target = .ok xs) :
    Traced t (c :: calls) (ofAttempt t columns outcome) := by
  have hattempt := data?_or_error?_ofAttempt (t := t) columns outcome
  constructor
  case template => rfl
  case bound => rw [← hcolumns]; rfl
  case bindings => rw [← hcolumns]; rfl
  case fresh => exact iff_of_false (by simp [hf]) fun h => hattempt h.1 h.2.1
  case blank => exact fun hdata herror => absurd herror (hattempt hdata)
  case values =>
    intro xs hxs
    obtain ⟨b, rfl, hv⟩ := hvalues xs (toOption_eq_some_iff.1 hxs)
    refine ⟨hf, rfl, target, ?_, hv⟩
    rw [lastTarget?, if_pos hasks, htarget]

/-- An application, and the reading that makes one. -/
theorem traced_application {c : Call} {target : Recording × EvaluationOptions}
    (hf : c.isForget = false) (htarget : c.target? = some target)
    (happlies : c.applies calls = true) (hasks : c.asksAnew calls = true) :
    Traced t (c :: calls) (ofAttempt t (columns? t target) (valuesFor t target)) := by
  refine traced_ofAttempt hf htarget hasks ?_ fun xs hxs => valuesFor_eq_ok_iff.1 hxs
  rw [lastTarget?, if_pos happlies, htarget]
  rfl

/-- A reading with the options that its call stands for. -/
theorem Traced.read {c : Call} {recording : Recording} {options : EvaluationOptions}
    (h : Traced t calls i) (hf : c.isForget = false)
    (htarget : c.target? = some (recording, options))
    (happlies : c.applies calls = calls.all Call.isForget)
    (hasks : c.asksAnew calls = calls.head?.all Call.isForget) :
    Traced t (c :: calls) (i.read recording options).state := by
  by_cases hblank : i.data? = none ∧ i.error? = none
  · obtain ⟨hdata, herror⟩ := hblank
    have hasks' : c.asksAnew calls = true := hasks.trans (h.blank hdata herror)
    rw [read_of_pending i recording options (pending?_of_blank hdata herror _), h.template]
    dsimp only
    by_cases hb : i.bound = true
    · -- The bindings are there already, so the reading only evaluates with them.
      have hnew : ¬ c.applies calls = true := by
        rw [happlies, h.fresh, hb]
        simp
      have hsome : some i.bindings = (lastTarget? Call.applies calls).bind (columns? t) := by
        obtain ⟨b, hlast⟩ := Option.isSome_iff_exists.1 (h.bound.symm.trans hb)
        rw [h.bindings, hlast]
        rfl
      rw [if_pos hb, if_pos hb]
      refine traced_ofAttempt hf htarget hasks' ?_ fun xs hxs => ⟨_, rfl, hxs⟩
      rw [lastTarget?, if_neg hnew]
      exact hsome
    · have hnew : c.applies calls = true := by
        rw [happlies, h.fresh]
        exact ⟨hdata, herror, Bool.eq_false_iff.2 hb⟩
      rw [if_neg hb, if_neg hb]
      exact traced_application hf htarget hnew hasks'
  · -- There is something to read, or an error stands: nothing changes.
    have hnone : i.pending? (recording, options) = none :=
      (i.pending?_eq_none_iff _).2 (not_and_or.1 hblank)
    have hnew : ¬ c.applies calls = true := by
      rw [happlies, h.fresh]
      exact fun hfresh => hblank ⟨hfresh.1, hfresh.2.1⟩
    rw [read_of_not_pending i recording options hnone]
    constructor
    case template => exact h.template
    case bound => rw [lastTarget?, if_neg hnew]; exact h.bound
    case bindings => rw [lastTarget?, if_neg hnew]; exact h.bindings
    case fresh => exact iff_of_false (by simp [hf]) fun hx => hblank ⟨hx.1, hx.2.1⟩
    case blank => exact fun hdata herror => absurd ⟨hdata, herror⟩ hblank
    case values =>
      intro xs hxs
      obtain ⟨hhead, hb, target, hlast, hv⟩ := h.values xs hxs
      refine ⟨hf, hb, target, ?_, hv⟩
      rw [lastTarget?, hasks, hhead]
      exact hlast

/-- Values are there only on an instance that is bound. -/
theorem Traced.data?_eq_none (h : Traced t calls i) (hb : i.bound = false) : i.data? = none := by
  refine Option.eq_none_iff_forall_ne_some.2 fun xs hxs => ?_
  obtain ⟨-, hbound, -⟩ := h.values xs hxs
  rw [hb] at hbound
  cases hbound

theorem Traced.forget (h : Traced t calls i) : Traced t (.forget :: calls) i.forget := by
  have hall : (Call.forget :: calls).all Call.isForget = calls.all Call.isForget := rfl
  constructor
  case template => exact h.template
  case bound => exact h.bound
  case bindings => exact h.bindings
  case fresh =>
    rw [hall, h.fresh]
    exact ⟨fun hx => ⟨rfl, hx.2⟩, fun hx => ⟨h.data?_eq_none hx.2.2, hx.2⟩⟩
  case blank => exact fun _ _ => rfl
  case values =>
    intro xs hxs
    cases hxs

/-- A step of a run. -/
theorem Traced.after (h : Traced t calls i) (c : Call) : Traced t (c :: calls) (i.after c) := by
  cases c with
  | apply recording options =>
    show Traced t _ (i.apply recording options).state
    rw [apply_eq, h.template]
    exact traced_application rfl rfl rfl rfl
  | read recording options => exact h.read rfl rfl rfl rfl
  | readAt recording row => exact h.read rfl rfl rfl rfl
  | forget => exact h.forget

/-! ## What a run preserves -/

theorem traced (t : Template) (calls : List Call) : Traced t calls ((ofTemplate t).run calls) := by
  induction calls with
  | nil =>
    constructor
    case template => rfl
    case bound => rfl
    case bindings => rfl
    case fresh => exact iff_of_true rfl ⟨rfl, rfl, rfl⟩
    case blank => exact fun _ _ => rfl
    case values =>
      intro xs hxs
      cases hxs
  | cons c earlier ih => exact ih.after c

theorem values_of_evaluate {options : EvaluationOptions} {formula : Text} {b : Bindings}
    {data : Table Float} {times : Array Float} {xs : Array Float}
    (h : evaluate options formula b data times = .ok xs) :
    xs.size = data.size ∧ ∀ x ∈ xs, Number.isFinite x = true := by
  obtain ⟨ev, hev, rfl⟩ := evaluate_eq_ok_iff.1 h
  exact Evaluation.values_of_ofFormula hev

end

/-- After any calls, an instance of a template has values or an error but not both. It has the
bindings of the last application, and values only for the recording and the options of the call
that asked for them: one for each row, all finite. -/
theorem consistent_run (t : Template) (calls : List Call) :
    Consistent t calls ((ofTemplate t).run calls) := by
  have h := traced t calls
  constructor
  case template => exact h.template
  case exclusive => exact isExclusive_run t calls
  case hasValues =>
    rw [Instance.hasValues, Bool.and_eq_true, and_comm, Option.isNone_iff_eq_none]
  case unbound =>
    intro hb
    have hnone : (lastTarget? Call.applies calls).bind (columns? t) = none := by
      rw [← Option.not_isSome_iff_eq_none, ← h.bound, hb]
      exact Bool.false_ne_true
    refine ⟨?_, h.data?_eq_none hb⟩
    rw [h.bindings, hnone]
    rfl
  case bound => exact h.bound
  case bindings => exact h.bindings
  case cached =>
    intro xs hxs
    obtain ⟨-, -, ⟨recording, options⟩, hlast, hv⟩ := h.values xs hxs
    exact ⟨recording, options, hlast, hv, values_of_evaluate hv⟩

/-- An instance of `RPM+1` is applied to one recording, and its values are forgotten and read
from another one: they are those of the other, with the columns of the first. -/
theorem read_from_another_recording :
    ∃ xs, ((ofTemplate (.create "1" ⟨0⟩ { name := "Next", formula := "RPM+1" })).run
        [.read ⟨["Boost", "RPM"], #[#[2.0, 3.0], #[4.0]], #[0.0, 0.5], []⟩ {}, .forget,
          .apply ⟨["rpm"], #[#[1.0]], #[0.0], []⟩ {}]).data? = some xs ∧
      evaluate {} "RPM+1" [("RPM", 0)] #[#[2.0, 3.0], #[4.0]] #[0.0, 0.5] = .ok xs := by
  have hsome : Option.isSome (data?
      ((ofTemplate (.create "1" ⟨0⟩ { name := "Next", formula := "RPM+1" })).run
        [.read ⟨["Boost", "RPM"], #[#[2.0, 3.0], #[4.0]], #[0.0, 0.5], []⟩ {}, .forget,
          .apply ⟨["rpm"], #[#[1.0]], #[0.0], []⟩ {}])) = true := by
    decide +kernel
  obtain ⟨xs, hxs⟩ := Option.isSome_iff_exists.1 hsome
  have h := consistent_run (.create "1" ⟨0⟩ { name := "Next", formula := "RPM+1" })
    [.read ⟨["Boost", "RPM"], #[#[2.0, 3.0], #[4.0]], #[0.0, 0.5], []⟩ {}, .forget,
      .apply ⟨["rpm"], #[#[1.0]], #[0.0], []⟩ {}]
  have hcolumns : columns? (.create "1" ⟨0⟩ { name := "Next", formula := "RPM+1" })
      (⟨["rpm"], #[#[1.0]], #[0.0], []⟩, {}) = some [(Text.ofString "RPM", 0)] := by
    decide +kernel
  obtain ⟨recording, options, hlast, hv, -⟩ := h.cached xs hxs
  cases hlast
  have hlastApplied : lastTarget? Call.applies
      [.read ⟨["Boost", "RPM"], #[#[2.0, 3.0], #[4.0]], #[0.0, 0.5], []⟩ {}, .forget,
        .apply ⟨["rpm"], #[#[1.0]], #[0.0], []⟩ {}] =
      some (⟨["rpm"], #[#[1.0]], #[0.0], []⟩, {}) := rfl
  rw [h.bindings, hlastApplied, Option.bind_some, hcolumns] at hv
  exact ⟨xs, hxs, hv⟩

end VirtualChannels.Instance
