import VirtualChannels.Library.Basic
import VirtualChannels.Proofs.Json.RoundTrip

/-
  The documents of libraries. Reading gives only what can be stored (`storable_read`), and what
  can be stored is read from its document as it is (`read_write`): a document that was read once
  does not change any more. On the way through text a zero loses its sign and nothing else is lost
  (`kept_write`).
-/

namespace VirtualChannels

/-! ## Numbers -/

namespace Number

theorem isFinite_of_isNatural {x : Float} (h : isNatural x = true) : isFinite x = true := by
  unfold isNatural isWhole at h
  simp only [Bool.and_eq_true] at h
  exact h.1.1

theorem isNatural_withoutZeroSign {x : Float} (h : isNatural x = true) :
    isNatural (withoutZeroSign x) = true := by
  by_cases hx : magnitudeBits x = 0
  · rw [withoutZeroSign_of_eq hx]
    decide +kernel
  · rwa [withoutZeroSign_of_ne hx]

/-- A number that is not negative has no sign to lose. -/
theorem withoutZeroSign_of_not_negative {x : Float} (h : isNegative x = false) :
    withoutZeroSign x = x := by
  by_cases hx : magnitudeBits x = 0
  · have hsigned := withSign_magnitudeBits x
    rw [h, hx] at hsigned
    rw [withoutZeroSign_of_eq hx]
    exact hsigned
  · exact withoutZeroSign_of_ne hx

end Number

/-! ## Assignments -/

namespace Assignment

variable {α : Type}

theorem put_of_not_mem {a : Assignment α} {name : Text} (h : name ∉ names a) (x : α) :
    put a name x = a ++ [(name, x)] := by
  induction a with
  | nil => rfl
  | cons p rest ih =>
    obtain ⟨n, y⟩ := p
    rw [names, List.map_cons, List.mem_cons, not_or] at h
    rw [put, if_neg fun e => h.1 e.symm, ih h.2]
    rfl

/-- Pairs whose names differ are an assignment as they are. -/
theorem ofPairs_eq_self {pairs : List (Text × α)} (h : (names pairs).Nodup) :
    ofPairs pairs = pairs := by
  have hfold (a rest : List (Text × α)) (hnames : (names (a ++ rest)).Nodup) :
      rest.foldl (fun a p => put a p.1 p.2) a = a ++ rest := by
    induction rest generalizing a with
    | nil => exact (List.append_nil a).symm
    | cons p rest ih =>
      have hp : p.1 ∉ names a := by
        intro hmem
        rw [names, List.map_append, List.nodup_append] at hnames
        exact hnames.2.2 p.1 hmem p.1 List.mem_cons_self rfl
      rw [List.foldl_cons, put_of_not_mem hp, ih]
      · rw [List.append_assoc]
        rfl
      · rw [List.append_assoc]
        exact hnames
  exact hfold [] pairs h

end Assignment

/-! ## Templates -/

/-- A template that is read from its entry: it has an id, and whole numbers for its times. -/
structure Template.Storable (t : Template) : Prop where
  id_ne_nil : t.id ≠ []
  createdAt : Number.isNatural t.createdAt = true
  modifiedAt : Number.isNatural t.modifiedAt = true

/-- A template whose zeros have no sign. -/
def Template.withoutZeroSigns (t : Template) : Template :=
  { t with createdAt := Number.withoutZeroSign t.createdAt
           modifiedAt := Number.withoutZeroSign t.modifiedAt }

theorem Template.Storable.withoutZeroSigns {t : Template} (h : t.Storable) :
    t.withoutZeroSigns.Storable :=
  ⟨h.id_ne_nil, Number.isNatural_withoutZeroSign h.createdAt,
    Number.isNatural_withoutZeroSign h.modifiedAt⟩

namespace Document

theorem isNatural_naturalOr {default : Float} (h : Number.isNatural default = true)
    (v : Option Json.Value) : Number.isNatural (naturalOr default v) = true := by
  unfold naturalOr
  split
  · split
    · assumption
    · exact h
  · exact h

theorem storable_of_readTemplate? {entry : Json.Value} {t : Template}
    (h : readTemplate? entry = some t) : t.Storable := by
  have hzero : Number.isNatural 0.0 = true := by decide +kernel
  unfold readTemplate? at h
  split at h
  · split at h
    · cases h
    · rename_i hid
      cases h
      exact ⟨hid, isNatural_naturalOr hzero _, isNatural_naturalOr hzero _⟩
  · cases h

theorem naturalOr_of_isNatural {x : Float} (h : Number.isNatural x = true) (default : Float) :
    naturalOr default (some (.number x)) = x := by
  show (if Number.isNatural x then x else default) = x
  rw [h]
  rfl

theorem readTemplate?_writeTemplate {t : Template} (h : t.Storable) :
    readTemplate? (writeTemplate t) = some t := by
  have hcreated : naturalOr 0.0 ((writeTemplate t).field? "created_at") = t.createdAt :=
    naturalOr_of_isNatural h.createdAt 0.0
  have hmodified : naturalOr 0.0 ((writeTemplate t).field? "modified_at") = t.modifiedAt :=
    naturalOr_of_isNatural h.modifiedAt 0.0
  have hid : ((writeTemplate t).field? "id").bind Json.Value.text? = some t.id := rfl
  have hname : ((writeTemplate t).field? "name").bind Json.Value.text? = some t.name := rfl
  have hformula : ((writeTemplate t).field? "formula").bind Json.Value.text? = some t.formula := rfl
  unfold readTemplate?
  rw [hid, hname, hformula, hcreated, hmodified]
  dsimp only
  rw [if_neg h.id_ne_nil]
  rfl

/-- In the document of a template no field comes twice. -/
theorem kept_writeTemplate {t : Template} (h : t.Storable) :
    (writeTemplate t).kept = writeTemplate t.withoutZeroSigns := by
  have hnames : List.Nodup (["id", "name", "formula", "unit", "description", "category",
      "created_at", "modified_at"].map Text.ofString) := by decide
  unfold writeTemplate
  rw [Json.Value.kept, Assignment.ofPairs_eq_self]
  · simp only [Json.Value.keptFields, Json.Value.kept, Number.isFinite_of_isNatural h.createdAt,
      Number.isFinite_of_isNatural h.modifiedAt, if_true]
    rfl
  · exact hnames

/-! ## Documents -/

theorem storable_read {v : Json.Value} {document : Document} (h : read v = .ok document) :
    Number.isNatural document.version = true ∧ ∀ t ∈ document.templates, t.Storable := by
  unfold read at h
  split at h
  · cases h
    refine ⟨isNatural_naturalOr (by decide +kernel) _, fun t ht => ?_⟩
    obtain ⟨entry, -, hentry⟩ := List.mem_filterMap.1 ht
    exact storable_of_readTemplate? hentry
  · cases h

theorem filterMap_readTemplate? {templates : List Template} (h : ∀ t ∈ templates, t.Storable) :
    (templates.map writeTemplate).filterMap readTemplate? = templates := by
  induction templates with
  | nil => rfl
  | cons t rest ih =>
    obtain ⟨ht, hrest⟩ := List.forall_mem_cons.1 h
    rw [List.map_cons, List.filterMap_cons_some (readTemplate?_writeTemplate ht), ih hrest]

variable {version : Float} {templates : List Template}
  (hversion : Number.isNatural version = true) (htemplates : ∀ t ∈ templates, t.Storable)

include hversion htemplates

/-- What can be stored is read from its document as it is, and nothing is dropped. -/
theorem read_write : read (write version templates) = .ok ⟨version, templates, 0⟩ := by
  have hentries : entries (write version templates) = templates.map writeTemplate := rfl
  have hfield : (write version templates).field? versionField = some (.number version) := rfl
  show Except.ok (Document.mk
    (naturalOr currentVersion ((write version templates).field? versionField))
    ((entries (write version templates)).filterMap readTemplate?)
    ((entries (write version templates)).length
      - ((entries (write version templates)).filterMap readTemplate?).length)) = _
  rw [hfield, hentries, filterMap_readTemplate? htemplates, List.length_map, Nat.sub_self,
    naturalOr_of_isNatural hversion]

/-- On the way through text only the signs of zeros are lost. -/
theorem kept_write : (write version templates).kept =
    write (Number.withoutZeroSign version) (templates.map Template.withoutZeroSigns) := by
  have hnames : [versionField, templatesField].Nodup := by decide
  have hitems : Json.Value.keptItems (templates.map writeTemplate)
      = (templates.map Template.withoutZeroSigns).map writeTemplate := by
    induction templates with
    | nil => rfl
    | cons t rest ih =>
      obtain ⟨ht, hrest⟩ := List.forall_mem_cons.1 htemplates
      rw [List.map_cons, Json.Value.keptItems, kept_writeTemplate ht, ih hrest]
      rfl
  unfold write
  rw [Json.Value.kept, Assignment.ofPairs_eq_self]
  · simp only [Json.Value.keptFields, Json.Value.kept, Number.isFinite_of_isNatural hversion,
      if_true, hitems]
  · exact hnames

/-- What is kept of a document is read as what was written, without the signs of zeros. -/
theorem read_kept_write : read (write version templates).kept =
    .ok ⟨Number.withoutZeroSign version, templates.map Template.withoutZeroSigns, 0⟩ := by
  have hstorable : ∀ t ∈ templates.map Template.withoutZeroSigns, t.Storable := by
    intro t ht
    obtain ⟨t', ht', rfl⟩ := List.mem_map.1 ht
    exact (htemplates t' ht').withoutZeroSigns
  rw [kept_write hversion htemplates,
    read_write (Number.isNatural_withoutZeroSign hversion) hstorable]

end Document

end VirtualChannels
