import VirtualChannels.Instance

/-
  Runs of an instance. A run is any sequence of calls; what a call does to the instance is what
  the operation of that name does, whatever recordings, rows and options it is given. Whatever is
  called, there are only a few ways in which it can leave the instance (`call_cases`).
-/

namespace VirtualChannels.Instance

/-- The calls that can change an instance. -/
inductive Call where
  | apply (recording : Recording) (options : EvaluationOptions)
  | read (recording : Recording) (options : EvaluationOptions)
  | readAt (recording : Recording) (row : Float)
  | forget

namespace Call

def isForget : Call → Bool
  | forget => true
  | _ => false

/-- The recording and the options that a call is about. A reading at a row has no options. -/
def target? : Call → Option (Recording × EvaluationOptions)
  | apply recording options => some (recording, options)
  | read recording options => some (recording, options)
  | readAt recording _ => some (recording, {})
  | forget => none

end Call

/-- The instance after a call. -/
def after (i : Instance) : Call → Instance
  | .apply recording options => (i.apply recording options).state
  | .read recording options => (i.read recording options).state
  | .readAt recording row => (i.readAt recording row).state
  | .forget => i.forget

/-- The instance after calls, of which the last one made is listed first. -/
def run (i : Instance) : List Call → Instance
  | [] => i
  | c :: earlier => (i.run earlier).after c

/-! ## What the operations do -/

/-- The columns of a recording that the references of a template are bound to, if all are. -/
def columns? (t : Template) (target : Recording × EvaluationOptions) : Option Bindings :=
  (bindReferences (references target.2.toScanOptions t.formula) target.1.channels).toOption

/-- The values or the error of a template for a recording, with bindings. -/
def valuesWith (t : Template) (b : Bindings) (target : Recording × EvaluationOptions) :
    Except FormulaFault (Array Float) :=
  evaluate target.2 t.formula b target.1.data target.1.times

/-- The values or the error of a template for a recording that it is bound to first. -/
def valuesFor (t : Template) (target : Recording × EvaluationOptions) :
    Except FormulaFault (Array Float) :=
  match bindReferences (references target.2.toScanOptions t.formula) target.1.channels with
  | .error e => .error e
  | .ok b => valuesWith t b target

theorem toOption_eq_some_iff {ε α : Type} {outcome : Except ε α} {a : α} :
    outcome.toOption = some a ↔ outcome = .ok a := by
  cases outcome <;> simp [Except.toOption]

theorem columns?_eq_some_iff {t : Template} {target : Recording × EvaluationOptions} {b : Bindings} :
    columns? t target = some b ↔
      bindReferences (references target.2.toScanOptions t.formula) target.1.channels = .ok b :=
  toOption_eq_some_iff

theorem valuesFor_eq_ok_iff {t : Template} {target : Recording × EvaluationOptions}
    {xs : Array Float} :
    valuesFor t target = .ok xs ↔
      ∃ b, columns? t target = some b ∧ valuesWith t b target = .ok xs := by
  simp only [columns?_eq_some_iff]
  unfold valuesFor
  cases bindReferences (references target.2.toScanOptions t.formula) target.1.channels with
  | error e => simp
  | ok b => simp

/-- The outcome of what a reading has still to do, if anything. -/
def pending? (i : Instance) (target : Recording × EvaluationOptions) :
    Option (Except FormulaFault (Array Float)) :=
  match i.data?, i.error? with
  | none, none =>
    some (if i.bound then valuesWith i.template i.bindings target else valuesFor i.template target)
  | _, _ => none

def fault? : Except FormulaFault (Array Float) → Option FormulaFault
  | .ok _ => none
  | .error e => some e

/-- The entries about an outcome. -/
def warnings (t : Template) (outcome : Except FormulaFault (Array Float)) : List Journal.Entry :=
  (fault? outcome).toList.flatMap (warning t)

/-- An instance of a template as an attempt leaves it, which bound it to columns or to none:
with the values or the error that the attempt came to. -/
def ofAttempt (t : Template) (columns : Option Bindings)
    (outcome : Except FormulaFault (Array Float)) : Instance where
  template := t
  bindings := columns.getD []
  bound := columns.isSome
  data? := outcome.toOption
  error? := fault? outcome

section
variable (t : Template) (columns : Option Bindings) (outcome : Except FormulaFault (Array Float))

@[simp] theorem template_ofAttempt : (ofAttempt t columns outcome).template = t := rfl

@[simp] theorem bindings_ofAttempt : (ofAttempt t columns outcome).bindings = columns.getD [] := rfl

@[simp] theorem bound_ofAttempt : (ofAttempt t columns outcome).bound = columns.isSome := rfl

@[simp] theorem data?_ofAttempt : (ofAttempt t columns outcome).data? = outcome.toOption := rfl

@[simp] theorem error?_ofAttempt : (ofAttempt t columns outcome).error? = fault? outcome := rfl

end

variable (i : Instance) (recording : Recording) (options : EvaluationOptions)

theorem evaluateRows_eq (h : i.bound = true) :
    i.evaluateRows recording options =
      { answer := (valuesWith i.template i.bindings (recording, options)).isOk
        state := ofAttempt i.template (some i.bindings)
          (valuesWith i.template i.bindings (recording, options))
        journal := warnings i.template
          (valuesWith i.template i.bindings (recording, options)) } := by
  obtain ⟨t, b, bound, data?, error?⟩ := i
  obtain rfl : bound = true := h
  unfold evaluateRows valuesWith
  dsimp only
  cases evaluate options t.formula b recording.data recording.times with
  | error e => rfl
  | ok xs => rfl

/-- An application owes nothing to what the instance was before but its template: on each way
out all of the fields are written. -/
theorem apply_eq :
    i.apply recording options =
      { answer := (valuesFor i.template (recording, options)).isOk
        state := ofAttempt i.template (columns? i.template (recording, options))
          (valuesFor i.template (recording, options))
        journal := warnings i.template (valuesFor i.template (recording, options)) } := by
  unfold apply valuesFor columns?
  dsimp only
  cases bindReferences (references options.toScanOptions i.template.formula)
      recording.channels with
  | error e => rfl
  | ok b => exact evaluateRows_eq { i with bindings := b, bound := true } recording options rfl

/-- A reading with something to do evaluates with the bindings that are there, or applies. -/
theorem read_of_pending {outcome : Except FormulaFault (Array Float)}
    (h : i.pending? (recording, options) = some outcome) :
    i.read recording options =
      { answer := outcome.toOption
        state := ofAttempt i.template
          (if i.bound then some i.bindings else columns? i.template (recording, options)) outcome
        journal := warnings i.template outcome } := by
  have hanswer : (if outcome.isOk then outcome.toOption else none) = outcome.toOption := by
    cases outcome <;> rfl
  unfold pending? at h
  unfold read
  split at h
  · rename_i hdata herror
    rw [hdata, herror]
    dsimp only
    unfold refresh
    by_cases hb : i.bound = true
    · rw [if_pos hb] at h ⊢
      rw [if_pos hb, evaluateRows_eq i recording options hb, Option.some.inj h]
      exact congrArg (Outcome.mk · _ _) hanswer
    · rw [if_neg hb] at h ⊢
      rw [if_neg hb, apply_eq, Option.some.inj h]
      exact congrArg (Outcome.mk · _ _) hanswer
  · cases h

variable {i} in
theorem pending?_of_blank (hdata : i.data? = none) (herror : i.error? = none)
    (target : Recording × EvaluationOptions) :
    i.pending? target =
      some (if i.bound then valuesWith i.template i.bindings target
        else valuesFor i.template target) := by
  unfold pending?
  rw [hdata, herror]

theorem pending?_eq_none_iff (target : Recording × EvaluationOptions) :
    i.pending? target = none ↔ i.data? ≠ none ∨ i.error? ≠ none := by
  unfold pending?
  cases i.data? with
  | none => cases i.error? <;> simp
  | some xs => simp

/-- Where there is something to read, or an error, a reading changes nothing. -/
theorem read_of_not_pending (h : i.pending? (recording, options) = none) :
    i.read recording options = ⟨i.data?, i, []⟩ := by
  unfold read
  cases hdata : i.data? with
  | some xs => rfl
  | none =>
    cases herror : i.error? with
    | some e => rfl
    | none =>
      rcases (i.pending?_eq_none_iff _).1 h with hne | hne
      · exact absurd hdata hne
      · exact absurd herror hne

/-! ## What a call does -/

/-- The entries that a call writes. -/
def entries (i : Instance) : Call → List Journal.Entry
  | .apply recording options => (i.apply recording options).journal
  | .read recording options => (i.read recording options).journal
  | .readAt recording row => (i.readAt recording row).journal
  | .forget => []

/-- The outcome of the binding and the evaluation that a call runs, if it runs any. -/
def attempt? (i : Instance) : Call → Option (Except FormulaFault (Array Float))
  | .apply recording options => some (valuesFor i.template (recording, options))
  | .read recording options => i.pending? (recording, options)
  | .readAt recording _ => i.pending? (recording, {})
  | .forget => none

/-- A call makes an attempt, which decides all fields and what is written; or it writes nothing and
changes nothing, but that it may forget the values. -/
theorem call_cases (c : Call) :
    (∃ columns outcome, i.attempt? c = some outcome ∧
      i.after c = ofAttempt i.template columns outcome ∧
      i.entries c = warnings i.template outcome) ∨
    (i.attempt? c = none ∧ (i.after c = i ∨ i.after c = i.forget) ∧ i.entries c = []) := by
  have hread (recording : Recording) (options : EvaluationOptions) :
      (∃ columns outcome, i.pending? (recording, options) = some outcome ∧
        (i.read recording options).state = ofAttempt i.template columns outcome ∧
        (i.read recording options).journal = warnings i.template outcome) ∨
      (i.pending? (recording, options) = none ∧
        ((i.read recording options).state = i ∨ (i.read recording options).state = i.forget) ∧
        (i.read recording options).journal = []) := by
    cases hp : i.pending? (recording, options) with
    | none =>
      rw [read_of_not_pending i recording options hp]
      exact Or.inr ⟨rfl, Or.inl rfl, rfl⟩
    | some outcome =>
      rw [read_of_pending i recording options hp]
      exact Or.inl ⟨_, outcome, rfl, rfl, rfl⟩
  cases c with
  | apply recording options =>
    have happly := apply_eq i recording options
    exact Or.inl ⟨_, _, rfl, congrArg Outcome.state happly, congrArg Outcome.journal happly⟩
  | read recording options => exact hread recording options
  | readAt recording row => exact hread recording {}
  | forget => exact Or.inr ⟨rfl, Or.inr rfl, rfl⟩

/-! ## Values and errors -/

/-- Values and an error are not there together. -/
def IsExclusive (i : Instance) : Prop := i.data? = none ∨ i.error? = none

theorem isExclusive_ofAttempt (t : Template) (columns : Option Bindings)
    (outcome : Except FormulaFault (Array Float)) : (ofAttempt t columns outcome).IsExclusive := by
  cases outcome with
  | ok xs => exact Or.inr rfl
  | error e => exact Or.inl rfl

variable {i} in
/-- A call sets a value or an error only with the other one cleared. -/
theorem IsExclusive.after (h : i.IsExclusive) (c : Call) : (i.after c).IsExclusive := by
  rcases i.call_cases c with ⟨columns, outcome, -, hafter, -⟩ | ⟨-, hafter | hafter, -⟩
  · rw [hafter]
    exact isExclusive_ofAttempt i.template columns outcome
  · rwa [hafter]
  · rw [hafter]
    exact Or.inl rfl

theorem isExclusive_run (t : Template) (calls : List Call) :
    ((ofTemplate t).run calls).IsExclusive := by
  induction calls with
  | nil => exact Or.inl rfl
  | cons c earlier ih => exact ih.after c

end VirtualChannels.Instance
