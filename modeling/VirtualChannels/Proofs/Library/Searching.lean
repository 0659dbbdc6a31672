import VirtualChannels.Library.Basic
import VirtualChannels.Proofs.Text.Lowercase

/-
  What a search finds. The query and the texts of a template are put in lower case one by one
  before the one is looked for in the others. A template that has the query as it was typed is
  found unless a capital sigma of the query gets its other form between the letters of the text
  (`search_finds_iff`).
-/

namespace VirtualChannels

theorem Text.trim_of_isBlank {t : Text} (h : t.isBlank = true) : t.trim = [] := by
  unfold trim
  rw [(trimLeft_eq_nil_iff t).2 h]
  rfl

/-- The text is a part of the name, the formula or the category as it is written there. -/
def Template.Contains (needle : Text) (t : Template) : Prop :=
  needle <:+: t.name ∨ needle <:+: t.formula ∨ needle <:+: t.category

theorem Template.mentions_iff {needle : Text} {t : Template} :
    t.mentions needle = true ↔ needle <:+: t.name.lowercase ∨ needle <:+: t.formula.lowercase ∨
      needle <:+: t.category.lowercase := by
  rw [mentions, Bool.or_eq_true, Bool.or_eq_true, Text.occursIn_iff_infix, Text.occursIn_iff_infix,
    Text.occursIn_iff_infix, or_assoc]

namespace Library
variable {l : Library} {query : Text}

/-- The empty text is a part of every other, so a blank query is no case of its own. -/
theorem search_eq_filter (l : Library) (query : Text) :
    l.search query = l.templates.filter (Template.mentions query.trim.lowercase) := by
  by_cases h : query.trim.lowercase = []
  · have hall : ∀ t ∈ l.templates, Template.mentions query.trim.lowercase t = true := fun t _ =>
      Template.mentions_iff.2 (.inl (by rw [h]; exact List.nil_infix))
    rw [List.filter_eq_self.2 hall]
    exact if_pos h
  · exact if_neg h

theorem mem_search_iff {t : Template} :
    t ∈ l.search query ↔ t ∈ l.templates ∧ t.mentions query.trim.lowercase = true := by
  rw [search_eq_filter, List.mem_filter]

theorem search_sublist (l : Library) (query : Text) : (l.search query).Sublist l.templates := by
  rw [search_eq_filter]
  exact List.filter_sublist

theorem search_of_isBlank (h : query.isBlank = true) (l : Library) : l.search query = l.templates := by
  unfold search
  rw [Text.trim_of_isBlank h]
  exact if_pos rfl

/-- Every template is found that has the query, without the blanks around it, as it was typed. -/
def FindsTyped (l : Library) (query : Text) : Prop :=
  ∀ t ∈ l.templates, t.Contains query.trim → t ∈ l.search query

/-- A query whose capital sigmas are settled finds what has it, in every library. -/
theorem findsTyped_of_settled (hwhole : query.trim.Whole)
    (hsettled : Text.SettledSigmas query.trim.codePoints) (l : Library) : l.FindsTyped query := by
  intro t ht hcontains
  have hlower {s : Text} : query.trim <:+: s → query.trim.lowercase <:+: s.lowercase :=
    Text.lowercase_infix hwhole hsettled
  exact mem_search_iff.2 ⟨ht, Template.mentions_iff.2 (hcontains.imp hlower (.imp hlower hlower))⟩

/-- In particular a query without a capital sigma does. -/
theorem findsTyped_of_not_mem (hwhole : query.trim.Whole)
    (h : Text.capitalSigma ∉ query.trim.codePoints) (l : Library) : l.FindsTyped query :=
  findsTyped_of_settled hwhole (Text.settledSigmas_of_not_mem h) l

/-- A new template that has the text in all three places. -/
def templateOf (t : Text) : Template :=
  .create "1" ⟨0⟩ { name := t, formula := t, category := some t }

theorem settled_of_findsTyped (h : ∀ l : Library, l.FindsTyped query) :
    Text.SettledSigmas query.trim.codePoints := by
  refine Decidable.not_not.1 fun hopen => ?_
  obtain ⟨t, hpart, hmissed⟩ := Text.exists_lowercase_not_infix hopen
  have hfound := h (empty.add (templateOf t)) (templateOf t) List.mem_cons_self (.inl hpart)
  rw [mem_search_iff, Template.mentions_iff] at hfound
  exact hfound.2.elim hmissed fun h => h.elim hmissed hmissed

/-- A search returns templates of the library in their order, all of them for a blank query. A
query that cuts no surrogate pair finds every template that has it as it was typed, in every
library, exactly if the letters of the query settle all its capital sigmas. -/
theorem search_finds_iff (query : Text) :
    (∀ l : Library, (l.search query).Sublist l.templates) ∧
    (query.isBlank = true → ∀ l : Library, l.search query = l.templates) ∧
    (query.trim.Whole → Text.SettledSigmas query.trim.codePoints →
      ∀ l : Library, l.FindsTyped query) ∧
    ((∀ l : Library, l.FindsTyped query) → Text.SettledSigmas query.trim.codePoints) :=
  ⟨fun l => search_sublist l query, search_of_isBlank, findsTyped_of_settled, settled_of_findsTyped⟩

/-- A template with a Greek name. -/
def greek (name : Text) : Template :=
  .create "1" ⟨0⟩ { name := name, formula := "RPM" }

theorem search_finds_sigma :
    (Text.trim " ΣΙΓΜΑ ").Whole ∧ Text.SettledSigmas (Text.trim " ΣΙΓΜΑ ").codePoints ∧
      (greek "ΔΙΣΙΓΜΑΣ").Contains (Text.trim " ΣΙΓΜΑ ") ∧
      greek "ΔΙΣΙΓΜΑΣ" ∈ (empty.add (greek "ΔΙΣΙΓΜΑΣ")).search " ΣΙΓΜΑ " := by
  have hwhole : (Text.trim " ΣΙΓΜΑ ").Whole := ⟨rfl, rfl⟩
  have hsettled : Text.SettledSigmas (Text.trim " ΣΙΓΜΑ ").codePoints := by decide +kernel
  have hcontains : (greek "ΔΙΣΙΓΜΑΣ").Contains (Text.trim " ΣΙΓΜΑ ") :=
    .inl ⟨Text.ofString "ΔΙ", Text.ofString "Σ", by decide +kernel⟩
  exact ⟨hwhole, hsettled, hcontains,
    (search_finds_iff " ΣΙΓΜΑ ").2.2.1 hwhole hsettled _ _ List.mem_cons_self hcontains⟩

/-- The sigma is final in the query and not in the name. -/
theorem greek_not_found :
    (greek "ΑΣΑ").Contains (Text.trim "ΑΣ") ∧ (empty.add (greek "ΑΣΑ")).search "ΑΣ" = [] ∧
      ¬ (empty.add (greek "ΑΣΑ")).FindsTyped "ΑΣ" := by
  have hcontains : (greek "ΑΣΑ").Contains (Text.trim "ΑΣ") :=
    .inl ⟨[], Text.ofString "Α", by decide +kernel⟩
  have hnone : (empty.add (greek "ΑΣΑ")).search "ΑΣ" = [] := by
    rw [search_eq_filter, List.filter_eq_nil_iff]
    decide +kernel
  refine ⟨hcontains, hnone, fun hfinds => ?_⟩
  have hfound := hfinds _ List.mem_cons_self hcontains
  rw [hnone] at hfound
  exact List.not_mem_nil hfound

end Library

end VirtualChannels
