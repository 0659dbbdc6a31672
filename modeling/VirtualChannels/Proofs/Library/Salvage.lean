import Mathlib.Data.List.Forall2
import VirtualChannels.Library.Basic
import VirtualChannels.Proofs.Number.Rationals

/-
  What is kept of a document. A field is kept if it is valid and gives way to its default
  otherwise (`Salvaged`), an entry is kept if it has what every template needs (`Readable`), and
  nothing else is looked at in either case. Templates and dropped entries together are the
  entries, in order, so the reading of two lists of entries one after the other is that of each
  (`read_salvages`).
-/

namespace VirtualChannels

open Json (Value)

namespace Document

/-! ## Fields -/

/-- What a field comes to: a valid value, or the default where there is none. -/
inductive Salvaged {β : Type} (valid : Value → β → Prop) (default : β) (field : Option Value) :
    β → Prop where
  | kept (v : Value) (b : β) (hfield : field = some v) (hvalid : valid v b) :
      Salvaged valid default field b
  | replaced (h : ∀ v b, field = some v → ¬ valid v b) : Salvaged valid default field default

def IsText (v : Value) (t : Text) : Prop := v = .text t

def IsItems (v : Value) (items : List Value) : Prop := v = .array items

/-- A finite number that is a natural one. -/
def IsCount (v : Value) (x : Float) : Prop :=
  v = .number x ∧ Number.isFinite x = true ∧ ∃ n : ℕ, Number.toRat x = n

section
variable {β : Type} {valid : Value → β → Prop} {default : β} {field : Option Value}

/-- A field comes to one thing only. -/
theorem Salvaged.unique {b b' : β} (hvalid : ∀ v b b', valid v b → valid v b' → b = b')
    (h : Salvaged valid default field b) (h' : Salvaged valid default field b') : b = b' := by
  cases h with
  | kept v b hfield hv =>
    cases h' with
    | kept v' b' hfield' hv' =>
      rw [hfield] at hfield'
      cases hfield'
      exact hvalid v b b' hv hv'
    | replaced h => exact absurd hv (h v b hfield)
  | replaced h =>
    cases h' with
    | kept v' b' hfield' hv' => exact absurd hv' (h v' b' hfield')
    | replaced => rfl

/-- A reader that knows the valid values, with a default for all others. -/
theorem salvaged_getD {read? : Value → Option β} (hread : ∀ v b, read? v = some b ↔ valid v b)
    (default : β) (field : Option Value) :
    Salvaged valid default field ((field.bind read?).getD default) := by
  cases hbind : field.bind read? with
  | none =>
    refine .replaced fun v b hfield hvalid => ?_
    rw [hfield, Option.bind_some, (hread v b).2 hvalid] at hbind
    cases hbind
  | some b =>
    obtain ⟨v, hfield, hv⟩ := Option.bind_eq_some_iff.1 hbind
    exact .kept v b hfield ((hread v b).1 hv)

end

theorem text?_eq_some_iff (v : Value) (t : Text) : v.text? = some t ↔ IsText v t := by
  unfold IsText
  cases v <;> simp [Value.text?]

theorem array?_eq_some_iff (v : Value) (items : List Value) :
    v.array? = some items ↔ IsItems v items := by
  unfold IsItems
  cases v <;> simp [Value.array?]

theorem IsText.unique (v : Value) (t t' : Text) (h : IsText v t) (h' : IsText v t') : t = t' :=
  Value.text.inj (h.symm.trans h')

theorem IsCount.unique (v : Value) (x x' : Float) (h : IsCount v x) (h' : IsCount v x') : x = x' :=
  Value.number.inj (h.1.symm.trans h'.1)

theorem salvaged_textOrEmpty (field : Option Value) :
    Salvaged IsText [] field (textOrEmpty field) :=
  salvaged_getD text?_eq_some_iff [] field

theorem salvaged_entries (v : Value) :
    Salvaged IsItems [] (v.field? templatesField) (entries v) :=
  salvaged_getD array?_eq_some_iff [] _

theorem salvaged_naturalOr (default : Float) (field : Option Value) :
    Salvaged IsCount default field (naturalOr default field) := by
  unfold naturalOr
  cases hbind : field.bind Value.number? with
  | none =>
    refine .replaced fun v x hfield hvalid => ?_
    rw [hfield, hvalid.1] at hbind
    cases hbind
  | some x =>
    obtain ⟨v, hfield, hv⟩ := Option.bind_eq_some_iff.1 hbind
    have hnumber : v = .number x := by cases v <;> simp_all [Value.number?]
    subst hnumber
    dsimp only
    split
    · rename_i hnatural
      exact .kept _ x hfield ⟨rfl, (Number.isNatural_iff x).1 hnatural⟩
    · rename_i hnatural
      refine .replaced fun v y hfield' hvalid => hnatural ?_
      rw [hfield] at hfield'
      cases hfield'
      cases hvalid.1
      exact (Number.isNatural_iff x).2 hvalid.2

/-! ## Entries -/

/-- An object with a name, a formula and an id that is not empty. -/
structure Readable (entry : Value) : Prop where
  object : ∃ fields, entry = .object fields
  id : ∃ id, id ≠ [] ∧ entry.field? "id" = some (.text id)
  name : ∃ name, entry.field? "name" = some (.text name)
  formula : ∃ formula, entry.field? "formula" = some (.text formula)

/-- How an entry is read: what every template needs is taken from its field, and every other part is
what its field comes to. -/
structure Decoded (entry : Value) (t : Template) : Prop where
  id : entry.field? "id" = some (.text t.id)
  id_ne_nil : t.id ≠ []
  name : entry.field? "name" = some (.text t.name)
  formula : entry.field? "formula" = some (.text t.formula)
  unit : Salvaged IsText [] (entry.field? "unit") t.unit
  description : Salvaged IsText [] (entry.field? "description") t.description
  category : Salvaged IsText [] (entry.field? "category") t.category
  createdAt : Salvaged IsCount 0.0 (entry.field? "created_at") t.createdAt
  modifiedAt : Salvaged IsCount 0.0 (entry.field? "modified_at") t.modifiedAt

section
variable {entry : Value} {t t' : Template}

theorem Decoded.unique (h : Decoded entry t) (h' : Decoded entry t') : t = t' := by
  have htext {name : Text} {s s' : Text} (hs : entry.field? name = some (.text s))
      (hs' : entry.field? name = some (.text s')) : s = s' :=
    Value.text.inj (Option.some.inj (hs.symm.trans hs'))
  obtain ⟨id, name, formula, unit, description, category, createdAt, modifiedAt⟩ := t
  obtain ⟨id', name', formula', unit', description', category', createdAt', modifiedAt'⟩ := t'
  rw [Template.mk.injEq]
  exact ⟨htext h.id h'.id, htext h.name h'.name, htext h.formula h'.formula,
    h.unit.unique IsText.unique h'.unit, h.description.unique IsText.unique h'.description,
    h.category.unique IsText.unique h'.category, h.createdAt.unique IsCount.unique h'.createdAt,
    h.modifiedAt.unique IsCount.unique h'.modifiedAt⟩

theorem bind_text?_eq_some_iff {field : Option Value} {s : Text} :
    field.bind Value.text? = some s ↔ field = some (.text s) := by
  rw [Option.bind_eq_some_iff]
  simp only [text?_eq_some_iff, IsText, exists_eq_right]

theorem readTemplate?_eq_some_iff : readTemplate? entry = some t ↔ Decoded entry t := by
  have hdecoded {entry : Value} {t : Template} (h : readTemplate? entry = some t) :
      Decoded entry t := by
    unfold readTemplate? at h
    split at h
    · rename_i id name formula hid hname hformula
      split at h
      · cases h
      · rename_i hne
        cases h
        exact
          { id := bind_text?_eq_some_iff.1 hid
            id_ne_nil := hne
            name := bind_text?_eq_some_iff.1 hname
            formula := bind_text?_eq_some_iff.1 hformula
            unit := salvaged_textOrEmpty _
            description := salvaged_textOrEmpty _
            category := salvaged_textOrEmpty _
            createdAt := salvaged_naturalOr 0.0 _
            modifiedAt := salvaged_naturalOr 0.0 _ }
    · cases h
  refine ⟨hdecoded, fun h => ?_⟩
  have hsome : ∃ t', readTemplate? entry = some t' := by
    unfold readTemplate?
    rw [bind_text?_eq_some_iff.2 h.id, bind_text?_eq_some_iff.2 h.name,
      bind_text?_eq_some_iff.2 h.formula]
    exact ⟨_, if_neg h.id_ne_nil⟩
  obtain ⟨t', ht'⟩ := hsome
  rw [ht', (hdecoded ht').unique h]

theorem readTemplate?_isSome_iff : (readTemplate? entry).isSome = true ↔ Readable entry := by
  rw [Option.isSome_iff_exists]
  constructor
  · rintro ⟨t, ht⟩
    have h := readTemplate?_eq_some_iff.1 ht
    refine ⟨?_, ⟨t.id, h.id_ne_nil, h.id⟩, ⟨t.name, h.name⟩, t.formula, h.formula⟩
    have hid := h.id
    cases entry with
    | object fields => exact ⟨fields, rfl⟩
    | _ => cases hid
  · rintro ⟨-, ⟨id, hne, hid⟩, ⟨name, hname⟩, formula, hformula⟩
    unfold readTemplate?
    rw [bind_text?_eq_some_iff.2 hid, bind_text?_eq_some_iff.2 hname,
      bind_text?_eq_some_iff.2 hformula]
    exact ⟨_, if_neg hne⟩

instance : DecidablePred Readable := fun _ => decidable_of_iff _ readTemplate?_isSome_iff

/-- The entries that are readable, and no others, are decoded in their order. -/
theorem forall₂_decoded (items : List Value) :
    List.Forall₂ Decoded (items.filter fun entry => Readable entry) (items.filterMap readTemplate?) := by
  induction items with
  | nil => exact .nil
  | cons entry rest ih =>
    cases hentry : readTemplate? entry with
    | none =>
      have hdamaged : ¬ Readable entry := fun h => by
        rw [← readTemplate?_isSome_iff, hentry] at h
        cases h
      rw [List.filterMap_cons_none hentry, List.filter_cons_of_neg (by simpa using hdamaged)]
      exact ih
    | some t =>
      have hreadable : Readable entry := readTemplate?_isSome_iff.1 (hentry ▸ rfl)
      rw [List.filterMap_cons_some hentry, List.filter_cons_of_pos (by simpa using hreadable)]
      exact .cons (readTemplate?_eq_some_iff.1 hentry) ih

end

/-! ## Documents -/

/-- Only an object has a list of templates. -/
theorem entries_of_array {v : Value} {items : List Value}
    (h : v.field? templatesField = some (.array items)) :
    (∃ fields, v = .object fields) ∧ entries v = items := by
  cases v with
  | object fields =>
    refine ⟨⟨fields, rfl⟩, ?_⟩
    unfold entries
    rw [h]
    rfl
  | _ => cases h

/-- What is read of a document, if it is read at all. -/
theorem read_eq_ok_iff {v : Value} {document : Document} :
    read v = .ok document ↔ (∃ fields, v = .object fields) ∧
      document = ⟨naturalOr currentVersion (v.field? versionField),
        (entries v).filterMap readTemplate?,
        (entries v).length - ((entries v).filterMap readTemplate?).length⟩ := by
  cases v with
  | object fields =>
    refine ⟨fun h => ⟨⟨fields, rfl⟩, ?_⟩, fun h => ?_⟩
    · cases h
      rfl
    · rw [h.2]
      rfl
  | _ =>
    refine ⟨fun h => absurd h (by simp [read]), ?_⟩
    rintro ⟨⟨fields, hv⟩, -⟩
    cases hv

/-- A document is read exactly if it is an object. Its version is what its field comes to, its
entries are a list or else none, and its templates are the readable entries, decoded in their
order and each by itself; with those that are dropped they are as many as the entries. Two lists
of entries one after the other are read as each of them. -/
theorem read_salvages (v : Value) :
    ((∃ document, read v = .ok document) ↔ ∃ fields, v = .object fields) ∧
    (∀ document, read v = .ok document →
      Salvaged IsCount currentVersion (v.field? versionField) document.version ∧
      ∃ items, Salvaged IsItems [] (v.field? templatesField) items ∧
        List.Forall₂ Decoded (items.filter fun entry => Readable entry) document.templates ∧
        document.templates.length + document.dropped = items.length) ∧
    (∀ entry t t', Decoded entry t → Decoded entry t' → t = t') ∧
    ∀ w joined items items', v.field? templatesField = some (.array items) →
      w.field? templatesField = some (.array items') →
      joined.field? templatesField = some (.array (items ++ items')) →
      ∃ d d' d'', read v = .ok d ∧ read w = .ok d' ∧ read joined = .ok d'' ∧
        d''.templates = d.templates ++ d'.templates ∧ d''.dropped = d.dropped + d'.dropped := by
  have hlength (items : List Value) : (items.filterMap readTemplate?).length ≤ items.length :=
    List.length_filterMap_le _ _
  refine ⟨?_, ?_, fun entry t t' => Decoded.unique, ?_⟩
  · constructor
    · rintro ⟨document, h⟩
      exact (read_eq_ok_iff.1 h).1
    · exact fun h => ⟨_, read_eq_ok_iff.2 ⟨h, rfl⟩⟩
  · intro document h
    obtain ⟨-, rfl⟩ := read_eq_ok_iff.1 h
    exact ⟨salvaged_naturalOr _ _, entries v, salvaged_entries v, forall₂_decoded _,
      Nat.add_sub_cancel' (hlength _)⟩
  · intro w joined items items' hv hw hjoined
    obtain ⟨hobject, hitems⟩ := entries_of_array hv
    obtain ⟨hobject', hitems'⟩ := entries_of_array hw
    obtain ⟨hobject'', hitems''⟩ := entries_of_array hjoined
    refine ⟨_, _, _, read_eq_ok_iff.2 ⟨hobject, rfl⟩, read_eq_ok_iff.2 ⟨hobject', rfl⟩,
      read_eq_ok_iff.2 ⟨hobject'', rfl⟩, ?_, ?_⟩
    · dsimp only
      rw [hitems, hitems', hitems'', List.filterMap_append]
    · have hle := hlength items
      have hle' := hlength items'
      dsimp only
      rw [hitems, hitems', hitems'', List.filterMap_append, List.length_append, List.length_append]
      omega

/-- A template whose unit is no text and whose time of creation is negative, an entry without an id
and one that is no object. -/
def damagedEntries : List Value :=
  [.object [("id", .text "a"), ("name", .text "Ratio"), ("formula", .text "RPM/Boost"),
      ("unit", .bool true), ("created_at", .number (-1.0)), ("modified_at", .number 1700000000.0)],
    .object [("name", .text "Nameless"), ("formula", .text "RPM")], .number 42.0]

/-- The entries without a version, once and twice. -/
theorem read_salvages_damagedEntries :
    ∃ document, read (.object [(templatesField, .array damagedEntries)]) = .ok document ∧
      Salvaged IsCount currentVersion none document.version ∧
      (∃ items, Salvaged IsItems [] (some (.array damagedEntries)) items ∧
        List.Forall₂ Decoded (items.filter fun entry => Readable entry) document.templates ∧
        document.templates.length + document.dropped = items.length) ∧
      ∃ twice,
        read (.object [(templatesField, .array (damagedEntries ++ damagedEntries))]) = .ok twice ∧
        twice.templates = document.templates ++ document.templates ∧
        twice.dropped = document.dropped + document.dropped := by
  obtain ⟨hobject, hread, -, hjoined⟩ :=
    read_salvages (.object [(templatesField, .array damagedEntries)])
  obtain ⟨document, hdocument⟩ := hobject.2 ⟨_, rfl⟩
  obtain ⟨hversion, hitems⟩ := hread document hdocument
  obtain ⟨d, d', twice, hd, hd', htwice, htemplates, hdropped⟩ := hjoined
    (.object [(templatesField, .array damagedEntries)])
    (.object [(templatesField, .array (damagedEntries ++ damagedEntries))]) _ _ rfl rfl rfl
  cases hd.symm.trans hdocument
  cases hd'.symm.trans hdocument
  exact ⟨document, hdocument, hversion, hitems, twice, htwice, htemplates, hdropped⟩

end Document

end VirtualChannels
