import VirtualChannels.Proofs.Instance.Runs
import VirtualChannels.Proofs.Recording.UniformSampling

/-
  Channels that are reached by their quoted names. A name in quotation marks is a formula of one
  reference, whatever the name is made of (`segments_quoted`), and the reference reads the first
  channel with the name. So the instance of such a formula is drawn as the channel itself is, apart
  from samples that are not finite (`quoted_name_reads_channel`).
-/

namespace VirtualChannels

/-- The number if it is finite, else zero. -/
def Number.finiteOrZero (x : Float) : Float := if isFinite x then x else 0.0

theorem finiteOutcome?_getD (x : Float) :
    (finiteOutcome? (.ok x)).getD 0.0 = Number.finiteOrZero x := by
  unfold finiteOutcome? Number.finiteOrZero
  dsimp only
  split
  · rfl
  · rfl

/-! ## The formula -/

section
variable {o : ScanOptions} {name : Text}

/-- The reference that reads the samples of a channel, with its name in quotation marks. -/
def Reference.quoted (name : Text) : Reference := ⟨name, .none, name.quoted, none⟩

theorem segments_quoted (hne : name ≠ []) (hquote : Segment.quotationMark ∉ name) :
    segments o name.quoted = [.reference (.quoted name)] := by
  have hscanned : Segment.Scanned o (.reference (.quoted name)) [] := by
    have h := Segment.Scanned.quoted (o := o) [] hne hquote
    rwa [List.take_nil, List.append_nil] at h
  have hsegments := segments_append hscanned
  rwa [Segment.text_reference, List.append_nil, segments] at hsegments

theorem references_quoted (hne : name ≠ []) (hquote : Segment.quotationMark ∉ name) :
    references o name.quoted = [.quoted name] := by
  unfold references
  rw [segments_quoted hne hquote]
  rfl

theorem not_isIdentifier_quoted (name : Text) : ¬ name.quoted.IsIdentifier := by
  intro hid
  have hmark : Segment.quotationMark ∈ name.quoted := List.mem_cons_self
  exact absurd (hid.continues hmark) (by decide)

end

/-! ## The channel -/

theorem findChannel?_of_first {channels : List Text} {name : Text} {column : Nat}
    (hcolumn : channels[column]? = some name)
    (hfirst : ∀ j < column, ∀ earlier, channels[j]? = some earlier →
      Text.lowercase earlier ≠ Text.lowercase name) :
    findChannel? channels name = some column := by
  obtain ⟨hlt, hget⟩ := List.getElem?_eq_some_iff.1 hcolumn
  refine List.findIdx?_eq_some_iff_getElem.2 ⟨hlt, ?_, fun j hj => ?_⟩
  · rw [hget]
    exact beq_self_eq_true _
  · have hne := hfirst j hj _ (List.getElem?_eq_getElem (hj.trans hlt))
    simpa using hne

section
variable {o : ScanOptions} {name : Text}

theorem bindReferences_quoted {channels : List Text} {column : Nat}
    (h : findChannel? channels name = some column) :
    bindReferences [.quoted name] channels = .ok [(name, column)] := by
  show bindNames channels [name] = _
  rw [bindNames, h]
  rfl

/-- The values of a quoted name are the samples of its channel. -/
theorem ofFormula_quoted (hne : name ≠ []) (hquote : Segment.quotationMark ∉ name)
    (column : Nat) (data : Table Float) (times : Array Float) :
    Evaluation.ofFormula { o with } name.quoted [(name, column)] data times =
      .ok (.ofRows data.size fun row =>
        finiteOutcome? (.ok ((data.cell? row column).getD 0.0))) := by
  by_cases hd : data.size = 0
  · rw [Evaluation.ofFormula_of_empty hd, hd]
    rfl
  · have hbound : Assignment.get? [(name, column)] (Reference.quoted name).name = some column := by
      rw [Assignment.get?_cons]
      exact if_pos rfl
    rw [ofFormula_of_segments (segments_quoted hne hquote) (not_isIdentifier_quoted name) hd,
      hbound]
    dsimp only
    rw [isCancelled_never, if_neg Bool.false_ne_true]
    rfl

theorem exists_evaluate_quoted (hne : name ≠ []) (hquote : Segment.quotationMark ∉ name)
    (column : Nat) (data : Table Float) (times : Array Float) :
    ∃ xs, evaluate { o with } name.quoted [(name, column)] data times = .ok xs ∧
      ∀ row, xs[row]?.getD 0.0 = Number.finiteOrZero ((data.cell? row column).getD 0.0) := by
  refine ⟨_, evaluate_eq_ok_iff.2 ⟨_, ofFormula_quoted hne hquote column data times, rfl⟩, ?_⟩
  intro row
  by_cases hrow : row < data.size
  · rw [Evaluation.getElem?_ofRows hrow, Option.getD_some, finiteOutcome?_getD]
  · have hsize := Evaluation.size_ofRows data.size fun row =>
      finiteOutcome? (.ok ((data.cell? row column).getD 0.0))
    rw [Array.getElem?_eq_none (by omega), Table.cell?, Array.getElem?_eq_none (by omega)]
    rfl

end

/-! ## The source -/

namespace Source

theorem getElem?_all_channel {recording : Recording} {name : Text} {column : Nat}
    (h : recording.channels[column]? = some name) (instances : List Instance) :
    (all recording instances)[column]? =
      some (channel column name (recording.units[column]?.getD [])) := by
  have hlt : column < (ofChannels recording).length := by
    rw [ofChannels, List.length_mapIdx]
    exact (List.getElem?_eq_some_iff.1 h).1
  rw [all, List.getElem?_append_left hlt, ofChannels, List.getElem?_mapIdx, h]
  rfl

theorem getElem?_all_computed (recording : Recording) (instances : List Instance) (k : Nat) :
    (all recording instances)[recording.channels.length + k]? = instances[k]?.map computed := by
  have hlength : (ofChannels recording).length = recording.channels.length := List.length_mapIdx
  rw [all, List.getElem?_append_right (by omega), hlength, Nat.add_sub_cancel_left,
    List.getElem?_map]

/-- A source with values shows those of a row, and zero elsewhere. -/
theorem readAt_computed {i : Instance} {xs : Array Float} {recording : Recording} {column : Nat}
    (hdata : i.data? = some xs)
    (h : ∀ row, xs[row]?.getD 0.0 =
      Number.finiteOrZero ((recording.data.cell? row column).getD 0.0)) (row : Float) :
    (computed i).readAt recording row =
      (Number.finiteOrZero (sampleAt recording column row), computed i) := by
  have hread : i.read recording {} = ⟨some xs, i, []⟩ := by
    rw [Instance.read, hdata]
  show (_, computed _) = _
  rw [Instance.readAt, hread]
  refine congrArg (Prod.mk · _) ?_
  dsimp only
  unfold Instance.valueIn sampleAt
  cases Number.toNat? row with
  | none => rfl
  | some r => exact h r

end Source

/-- Every channel is reached by its name in quotation marks, if the name is not empty and has no
quotation mark and no channel before has the name in another letter case. The instance binds this
name to this channel, and as a source it shows at each row what the channel shows, or zero where
that is not finite. -/
theorem quoted_name_reads_channel {i : Instance} {recording : Recording} {name : Text}
    {column : Nat} (hformula : i.template.formula = name.quoted)
    (hcolumn : recording.channels[column]? = some name) (hne : name ≠ [])
    (hquote : Segment.quotationMark ∉ name)
    (hfirst : ∀ j < column, ∀ earlier, recording.channels[j]? = some earlier →
      Text.lowercase earlier ≠ Text.lowercase name) (o : ScanOptions) :
    ∃ applied : Instance, i.apply recording { o with } = ⟨true, applied, []⟩ ∧
      applied.hasValues = true ∧ applied.bound = true ∧ applied.bindings = [(name, column)] ∧
      ∀ instances k, instances[k]? = some applied →
        ∃ unit, (Source.all recording instances)[column]? = some (.channel column name unit) ∧
          (Source.all recording instances)[recording.channels.length + k]? =
            some (.computed applied) ∧
          ∀ row, (Source.computed applied).readAt recording row =
            (Number.finiteOrZero ((Source.channel column name unit).readAt recording row).1,
              .computed applied) := by
  have hbind : bindReferences (references o i.template.formula) recording.channels =
      .ok [(name, column)] := by
    rw [hformula, references_quoted hne hquote]
    exact bindReferences_quoted (findChannel?_of_first hcolumn hfirst)
  obtain ⟨xs, hvalues, hreads⟩ :=
    exists_evaluate_quoted (o := o) hne hquote column recording.data recording.times
  rw [← hformula] at hvalues
  refine ⟨.ofAttempt i.template (some [(name, column)]) (.ok xs), ?_, rfl, rfl, rfl,
    fun instances k hk => ⟨_, Source.getElem?_all_channel hcolumn instances, ?_, ?_⟩⟩
  · rw [Instance.apply_eq, Instance.columns?, Instance.valuesFor, hbind]
    dsimp only
    rw [Instance.valuesWith, hvalues]
    rfl
  · rw [Source.getElem?_all_computed, hk]
    rfl
  · exact Source.readAt_computed rfl hreads

/-- A name that is written like a shifted call, in a recording in which a sample is infinite, one is
missing, and another letter case of the name comes later. -/
theorem quoted_name_reads_call_like_channel :
    ∃ recording : Recording,
      recording.channels = (["RPM", "sin(1)[-1] °C", "SIN(1)[-1] °c"] : List Text) ∧
      recording.data = #[#[1.0, 2.5, 9.0], #[3.0, 1.0 / 0.0, 9.0], #[5.0]] ∧
      ∃ applied : Instance,
        (Instance.ofTemplate (.create "1" ⟨0⟩
          { name := "Copy", formula := Text.quoted "sin(1)[-1] °C" })).apply recording {} =
            ⟨true, applied, []⟩ ∧
        applied.bindings = ([("sin(1)[-1] °C", 1)] : Bindings) ∧
        (Source.computed applied).readAt recording 0.0 = (2.5, .computed applied) ∧
        (Source.computed applied).readAt recording 1.0 = (0.0, .computed applied) ∧
        (Source.computed applied).readAt recording 2.0 = (0.0, .computed applied) := by
  obtain ⟨recording, hchannels, hdata⟩ : ∃ recording : Recording,
      recording.channels = (["RPM", "sin(1)[-1] °C", "SIN(1)[-1] °c"] : List Text) ∧
      recording.data = #[#[1.0, 2.5, 9.0], #[3.0, 1.0 / 0.0, 9.0], #[5.0]] :=
    ⟨⟨_, _, #[0.0, 1.0, 2.0], []⟩, rfl, rfl⟩
  have hcolumn : recording.channels[1]? = some (Text.ofString "sin(1)[-1] °C") := by
    rw [hchannels]
    rfl
  have hfirst : ∀ j < 1, ∀ earlier, recording.channels[j]? = some earlier →
      Text.lowercase earlier ≠ Text.lowercase "sin(1)[-1] °C" := by
    intro j hj earlier h
    obtain rfl : j = 0 := by omega
    rw [hchannels] at h
    cases h
    decide
  obtain ⟨applied, happlied, -, -, hbindings, hsource⟩ := @quoted_name_reads_channel
    (.ofTemplate (.create "1" ⟨0⟩ { name := "Copy", formula := Text.quoted "sin(1)[-1] °C" }))
    recording "sin(1)[-1] °C" 1 rfl hcolumn (by decide) (by decide) hfirst {}
  obtain ⟨unit, -, -, hsame⟩ := hsource [applied] 0 rfl
  have hread : ∀ row, (Source.computed applied).readAt recording row =
      (Number.finiteOrZero (Source.sampleAt recording 1 row), .computed applied) := hsame
  refine ⟨recording, hchannels, hdata, applied, happlied, hbindings, ?_, ?_, ?_⟩
  · rw [hread, Source.sampleAt, hdata, Prod.mk.injEq]
    exact ⟨by decide +kernel, rfl⟩
  · rw [hread, Source.sampleAt, hdata, Prod.mk.injEq]
    exact ⟨by decide +kernel, rfl⟩
  · rw [hread, Source.sampleAt, hdata, Prod.mk.injEq]
    exact ⟨by decide +kernel, rfl⟩

end VirtualChannels
