import VirtualChannels.Proofs.Library.Runs
import VirtualChannels.Proofs.Number.Order

/-
  What the calls of a run keep of a library. From any point of a run to a later one templates
  stay with their id and their creation time until they are erased, keep their order, and are
  left alone by calls on other ids (`Kept`); and templates that were created no later than they
  were modified, and modified no later than now, stay so while the clock goes on.
-/

namespace VirtualChannels

/-! ## Dates -/

/-- The seconds do not go back where the milliseconds do not. -/
theorem Instant.seconds_le {earlier later : Instant} (he : earlier.hasDate = true)
    (hl : later.hasDate = true) (h : earlier.milliseconds ≤ later.milliseconds) :
    earlier.seconds ≤ later.seconds := by
  have hseconds {i : Instant} (hi : i.hasDate = true) :
      i.seconds = Number.withSign (i.milliseconds < 0)
        (Number.nearestBits (i.milliseconds.natAbs / 1000) 1) := if_pos hi
  have hbound (n : Nat) : Number.nearestBits n 1 ≤ Number.infinityBits :=
    Number.nearestBits_le n 1
  rw [hseconds he, hseconds hl, Number.le_iff (Number.isNumber_withSign _ (hbound _))
    (Number.isNumber_withSign _ (hbound _)), Number.rank_withSign _ (hbound _),
    Number.rank_withSign _ (hbound _)]
  unfold Number.signed
  by_cases hnegative : earlier.milliseconds < 0
  · by_cases hnegative' : later.milliseconds < 0
    · have hle : Number.nearestBits (later.milliseconds.natAbs / 1000) 1 ≤
          Number.nearestBits (earlier.milliseconds.natAbs / 1000) 1 :=
        Number.nearestBits_mono 1 (by omega)
      simp only [hnegative, hnegative', decide_true, if_true]
      omega
    · simp only [hnegative, hnegative', decide_true, decide_false, if_true, Bool.false_eq_true,
        if_false]
      omega
  · have hnegative' : ¬ later.milliseconds < 0 := by omega
    have hle : Number.nearestBits (earlier.milliseconds.natAbs / 1000) 1 ≤
        Number.nearestBits (later.milliseconds.natAbs / 1000) 1 :=
      Number.nearestBits_mono 1 (by omega)
    simp only [hnegative, hnegative', decide_false, Bool.false_eq_true, if_false]
    omega

/-- Created no later than modified, and modified no later than an instant. -/
def Template.Dated (now : Instant) (t : Template) : Prop :=
  t.createdAt ≤ t.modifiedAt ∧ t.modifiedAt ≤ now.seconds

instance (now : Instant) (t : Template) : Decidable (t.Dated now) :=
  inferInstanceAs (Decidable (_ ∧ _))

/-- Readings of a clock that does not go back, the last one first; a clock shows dates. -/
def Steady (readings : List Instant) : Prop :=
  (∀ i ∈ readings, i.hasDate = true) ∧
    readings.Pairwise fun later earlier => earlier.milliseconds ≤ later.milliseconds

instance (readings : List Instant) : Decidable (Steady readings) :=
  inferInstanceAs (Decidable (_ ∧ _))

theorem Steady.seconds_le {now earlier : Instant} {readings : List Instant}
    (h : Steady (now :: readings)) (he : earlier ∈ readings) : earlier.seconds ≤ now.seconds :=
  Instant.seconds_le (h.1 earlier (List.mem_cons_of_mem now he)) (h.1 now List.mem_cons_self)
    ((List.pairwise_cons.1 h.2).1 earlier he)

theorem Steady.tail {now : Instant} {readings : List Instant} (h : Steady (now :: readings)) :
    Steady readings :=
  ⟨fun i hi => h.1 i (List.mem_cons_of_mem now hi), (List.pairwise_cons.1 h.2).2⟩

theorem Template.Dated.mono {t : Template} {earlier later : Instant} (h : t.Dated earlier)
    (hle : earlier.seconds ≤ later.seconds) : t.Dated later :=
  ⟨h.1, Number.le_trans h.2 hle⟩

namespace Library

/-- Edited and copied templates are dated as those they are made from. -/
theorem dated_after {l : Library} {c : Call} (hl : ∀ t ∈ l.templates, t.Dated c.now)
    (hadded : ∀ t, c.operation = .add t → t.Dated c.now)
    (hnow : c.now.seconds ≤ c.now.seconds) : ∀ t ∈ (l.after c).templates, t.Dated c.now := by
  obtain ⟨now, operation⟩ := c
  have hadd {t : Template} (ht : t.Dated now) : ∀ s ∈ (l.add t).templates, s.Dated now := by
    intro s hs
    rcases List.mem_append.1 hs with hs | hs
    · exact hl s hs
    · rw [List.mem_singleton.1 hs]
      exact ht
  cases operation with
  | add t => exact hadd (hadded t rfl)
  | erase id => exact fun t ht => hl t (List.mem_of_mem_eraseP ht)
  | update id e =>
    intro t ht
    rcases mem_modifyFirst ht with ht | ⟨s, hs, rfl⟩
    · exact hl t ht
    · obtain ⟨hcreated, hmodified⟩ := hl s hs
      exact ⟨Number.le_trans hcreated hmodified, hnow⟩
  | duplicate id freshId =>
    show ∀ t ∈ (l.duplicate freshId now id).templates, t.Dated now
    unfold duplicate
    cases l.find? id with
    | none => exact hl
    | some t => exact hadd ⟨hnow, hnow⟩
  | find id => exact hl
  | search query => exact hl

theorem dated_run {l : Library} {start : Instant} {calls : List Call}
    (hl : ∀ t ∈ l.templates, t.Dated start)
    (hadded : ∀ c ∈ calls, ∀ t, c.operation = .add t → t.Dated c.now) {now : Instant}
    (h : Steady (now :: (calls.map Call.now ++ [start]))) :
    ∀ t ∈ (l.run calls).templates, t.Dated now := by
  induction calls generalizing now with
  | nil => exact fun t ht => (hl t ht).mono (h.seconds_le List.mem_cons_self)
  | cons c earlier ih =>
    have hbefore : ∀ t ∈ (l.run earlier).templates, t.Dated c.now :=
      ih (fun c' hc' => hadded c' (List.mem_cons_of_mem c hc')) h.tail
    have hdate : c.now.hasDate = true := h.1 c.now (List.mem_cons_of_mem now List.mem_cons_self)
    have hafter : ∀ t ∈ (l.run (c :: earlier)).templates, t.Dated c.now :=
      dated_after hbefore (hadded c List.mem_cons_self)
        (Instant.seconds_le hdate hdate (Int.le_refl _))
    exact fun t ht => (hafter t ht).mono (h.seconds_le List.mem_cons_self)

/-! ## What is kept -/

/-- What holds of a library and of what calls have made of it. -/
structure Kept (l : Library) (calls : List Call) (l' : Library) : Prop where
  distinct : l'.ids.Nodup
  /-- A template stays until it is erased, with its id and its creation time. -/
  stays : ∀ t ∈ l.templates, erased calls t.id = false →
    ∃ t' ∈ l'.templates, t'.id = t.id ∧ t'.createdAt = t.createdAt
  /-- Those that stay keep their order; what was added stands behind them. -/
  order : l'.births = l.births.filter (fun b => !erased calls b.1) ++ l.newcomers calls
  /-- Calls on other ids leave a template exactly as it is. -/
  untouched : l'.templates.filter (fun t => !concerned calls t.id) =
    l.templates.filter fun t => !concerned calls t.id
  unknown : ∀ c id, Call.asked? c = some id → id ∉ l'.ids → l'.after c = l'

theorem kept_run {l : Library} {calls : List Call} (hl : l.ids.Nodup) (h : l.Admitted calls) :
    Kept l calls (l.run calls) := by
  have hbirths := births_run hl h
  constructor
  case distinct => exact nodup_ids_run hl h
  case stays =>
    intro t ht hstays
    have hbirth : t.birth ∈ l.births.filter fun b => !erased calls b.1 := by
      refine List.mem_filter.2 ⟨List.mem_map.2 ⟨t, ht, rfl⟩, ?_⟩
      show (!erased calls t.id) = true
      rw [hstays, Bool.not_false]
    have hmem : t.birth ∈ (l.run calls).births :=
      hbirths ▸ List.mem_append_left _ hbirth
    obtain ⟨t', ht', heq⟩ := List.mem_map.1 hmem
    exact ⟨t', ht', congrArg Prod.fst heq, congrArg Prod.snd heq⟩
  case order => exact hbirths
  case untouched => exact untouched_run hl h
  case unknown => exact fun c id hc hid => after_of_unknown hc hid

/-- From any library without two templates of one id, whatever is called, from every point of the
run to every later one. The ids of templates that are added, copies among them, are those of no
template there; ids that were never seen before are such ids. -/
theorem run_keeps_histories {l : Library} {later earlier : List Call} (hl : l.ids.Nodup)
    (h : l.Admitted (later ++ earlier)) :
    Kept (l.run earlier) later (l.run (later ++ earlier)) ∧
      ∀ {start now : Instant}, Steady (now :: ((later ++ earlier).map Call.now ++ [start])) →
        (∀ t ∈ l.templates, t.Dated start) →
        (∀ c ∈ later ++ earlier, ∀ t, c.operation = .add t → t.Dated c.now) →
        ∀ t ∈ (l.run (later ++ earlier)).templates, t.Dated now := by
  obtain ⟨hearlier, hlater⟩ := h.of_append
  refine ⟨?_, fun hsteady hstart hadded => dated_run hstart hadded hsteady⟩
  rw [run_append]
  exact kept_run (nodup_ids_run hl hearlier) hlater

/-- Two templates, one a second older than the other. -/
def ratioAndNext : Library where
  templates := [.create "1" ⟨0⟩ { name := "Ratio", formula := "RPM/Boost" },
    .create "2" ⟨1000⟩ { name := "Next", formula := "RPM[1]" }]

/-- A third template comes; the oldest one is copied and erased. -/
theorem run_keeps_histories_ratioAndNext :
    Kept (ratioAndNext.run [⟨⟨4000⟩, .add (.create "3" ⟨3000⟩ { name := "One", formula := "1" })⟩])
      [⟨⟨5000⟩, .erase "1"⟩, ⟨⟨5000⟩, .duplicate "1" "4"⟩]
      (ratioAndNext.run [⟨⟨5000⟩, .erase "1"⟩, ⟨⟨5000⟩, .duplicate "1" "4"⟩,
        ⟨⟨4000⟩, .add (.create "3" ⟨3000⟩ { name := "One", formula := "1" })⟩]) ∧
    ∀ t ∈ (ratioAndNext.run [⟨⟨5000⟩, .erase "1"⟩, ⟨⟨5000⟩, .duplicate "1" "4"⟩,
        ⟨⟨4000⟩, .add (.create "3" ⟨3000⟩ { name := "One", formula := "1" })⟩]).templates,
      t.Dated ⟨6000⟩ := by
  have hids : ratioAndNext.ids.Nodup := by decide +kernel
  have hadmitted : ratioAndNext.Admitted ([⟨⟨5000⟩, .erase "1"⟩, ⟨⟨5000⟩, .duplicate "1" "4"⟩] ++
      [⟨⟨4000⟩, .add (.create "3" ⟨3000⟩ { name := "One", formula := "1" })⟩]) := by
    decide +kernel
  obtain ⟨hkept, hdated⟩ := run_keeps_histories hids hadmitted
  have hstart : ∀ t ∈ ratioAndNext.templates, t.Dated ⟨1000⟩ := by decide +kernel
  refine ⟨hkept, hdated (by decide +kernel) hstart ?_⟩
  intro c hc t ht
  simp only [List.cons_append, List.nil_append, List.mem_cons, List.not_mem_nil, or_false] at hc
  rcases hc with rfl | rfl | rfl <;> cases ht
  decide +kernel

end Library

end VirtualChannels
