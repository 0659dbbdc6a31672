import Mathlib.Data.List.Count
import VirtualChannels.Library.Storage
import VirtualChannels.Proofs.Library.Runs
import VirtualChannels.Proofs.Library.Salvage

/-
  Ids of loaded templates. Reading a document keeps every readable entry, whether or not another
  one has its id; so the templates have different ids exactly if these entries have
  (`distinct_ids_iff`). Where they do, an id means one template, which is found, edited and
  removed by it; where two templates share an id, the first of them hides the second until it is
  removed.
-/

namespace VirtualChannels

namespace Library

/-! ## The first template with an id -/

section
variable {α : Type} {p : α → Bool}

/-- Once the first match is gone the second one is found. -/
theorem find?_eraseP_self (xs : List α) : (xs.eraseP p).find? p = (xs.filter p)[1]? := by
  induction xs with
  | nil => rfl
  | cons x xs ih =>
    by_cases hx : p x = true
    · rw [List.eraseP_cons_of_pos hx, List.filter_cons_of_pos hx, List.getElem?_cons_succ,
        ← List.head?_eq_getElem?, List.head?_filter]
    · rw [List.eraseP_cons_of_neg hx, List.filter_cons_of_neg hx, List.find?_cons_of_neg hx, ih]

end

section
variable {l : Library} {id : Text}

theorem find?_erase (l : Library) (id : Text) :
    (l.erase id).find? id = (l.templates.filter fun t => t.id == id)[1]? :=
  find?_eraseP_self l.templates

theorem count_ids (l : Library) (id : Text) :
    l.ids.count id = (l.templates.filter fun t => t.id == id).length := by
  unfold ids
  rw [List.count, List.countP_map, List.countP_eq_length_filter]
  rfl

/-- Ids are different exactly if nothing is found under an id that was just removed. -/
theorem nodup_ids_iff :
    l.ids.Nodup ↔ ∀ id t, l.find? id = some t → (l.erase id).find? id = none := by
  rw [List.nodup_iff_count_le_one]
  constructor
  · intro h id t _
    rw [find?_erase, List.getElem?_eq_none_iff, ← count_ids]
    exact h id
  · intro h id
    rw [count_ids]
    cases hfind : l.find? id with
    | none =>
      have hnone : l.templates.filter (fun t => t.id == id) = [] := by
        rw [← List.head?_eq_none_iff, List.head?_filter]
        exact hfind
      rw [hnone]
      exact Nat.zero_le 1
    | some t =>
      rw [← List.getElem?_eq_none_iff, ← find?_erase]
      exact h id t hfind

/-- Up to the first template with its id a change and a search find nothing. -/
theorem modifyFirst_append {change : Template → Template} {before : List Template}
    (h : id ∉ before.map Template.id) {t : Template} (ht : t.id = id) (after : List Template) :
    modifyFirst change id (before ++ t :: after) = before ++ change t :: after := by
  induction before with
  | nil => exact if_pos (beq_iff_eq.2 ht)
  | cons s before ih =>
    rw [List.map_cons, List.mem_cons, not_or] at h
    rw [List.cons_append, modifyFirst, if_neg fun hs => h.1 (beq_iff_eq.1 hs).symm, ih h.2]
    rfl

end

/-- The template is the one that is meant by its id, wherever it stands. -/
structure Meant (l : Library) (before : List Template) (t : Template) (after : List Template) :
    Prop where
  found : l.find? t.id = some t
  removed : (l.erase t.id).templates = before ++ after
  edited : ∀ now e, (l.update now t.id e).templates = before ++ t.edit now e :: after

theorem meant_of_nodup {l : Library} {before after : List Template} {t : Template}
    (hl : l.ids.Nodup) (h : l.templates = before ++ t :: after) : l.Meant before t after := by
  have hbefore : t.id ∉ before.map Template.id := by
    intro hmem
    unfold ids at hl
    rw [h, List.map_append, List.nodup_append] at hl
    exact hl.2.2 t.id hmem t.id List.mem_cons_self rfl
  have hother : ∀ s ∈ before, ¬ (s.id == t.id) = true := fun s hs heq =>
    hbefore (List.mem_map.2 ⟨s, hs, beq_iff_eq.1 heq⟩)
  have hself : (t.id == t.id) = true := beq_self_eq_true t.id
  constructor
  case found =>
    unfold find?
    rw [h, List.find?_append, List.find?_eq_none.2 hother, Option.none_or,
      List.find?_cons_of_pos (p := fun s : Template => s.id == t.id) hself]
  case removed =>
    show l.templates.eraseP _ = _
    rw [h, List.eraseP_append_right _ hother,
      List.eraseP_cons_of_pos (p := fun s : Template => s.id == t.id) hself]
  case edited =>
    intro now e
    show modifyFirst _ _ l.templates = _
    rw [h, modifyFirst_append hbefore rfl]

/-! ## Documents -/

/-- The ids of what is read are those of the readable entries, in their order. -/
theorem map_id_templates {items : List Json.Value} {templates : List Template}
    (h : List.Forall₂ Document.Decoded items templates) :
    items.map (fun entry => entry.field? "id") =
      (templates.map Template.id).map fun id => some (.text id) := by
  induction h with
  | nil => rfl
  | cons hentry _ ih => rw [List.map_cons, List.map_cons, List.map_cons, hentry.id, ih]

theorem ofDocument_of_read {v : Json.Value} {document : Document}
    (h : Document.read v = .ok document) (path : Text) :
    (ofDocument path v).1 = ⟨document.version, document.templates⟩ := by
  unfold ofDocument
  rw [h]

/-- The ids in the library of a document are different exactly if those of the readable entries
of the document are. Exactly then nothing is found any more under an id that was removed; and
every template is meant by its id, while otherwise the next template with the id is found. -/
theorem distinct_ids_iff {v : Json.Value} {document : Document}
    (h : Document.read v = .ok document) (path : Text) {l : Library}
    (hl : (ofDocument path v).1 = l) :
    l.templates = document.templates ∧
    (l.ids.Nodup ↔ ((Document.entries v).filter fun entry => Document.Readable entry).Pairwise
      fun entry entry' => entry.field? "id" ≠ entry'.field? "id") ∧
    (l.ids.Nodup ↔ ∀ id t, l.find? id = some t → (l.erase id).find? id = none) ∧
    (l.ids.Nodup → ∀ before t after, l.templates = before ++ t :: after → l.Meant before t after) ∧
    ∀ id, (l.erase id).find? id = (l.templates.filter fun t => t.id == id)[1]? := by
  rw [ofDocument_of_read h] at hl
  subst hl
  refine ⟨rfl, ?_, nodup_ids_iff, fun hids before t after => meant_of_nodup hids, find?_erase _⟩
  obtain ⟨-, rfl⟩ := Document.read_eq_ok_iff.1 h
  have hids := map_id_templates (Document.forall₂_decoded (Document.entries v))
  have hinjective : Function.Injective fun id : Text => some (Json.Value.text id) :=
    fun id id' heq => Json.Value.text.inj (Option.some.inj heq)
  rw [← List.pairwise_map (f := fun entry : Json.Value => entry.field? "id") (R := (· ≠ ·)), hids]
  exact (List.nodup_map_iff hinjective).symm

/-- An entry with an id, a name and a formula. -/
def plainEntry (id name formula : Text) : Json.Value :=
  .object [("id", .text id), ("name", .text name), ("formula", .text formula)]

/-- Two templates; an entry that shares the id of the first one has no formula. -/
def oneReadableOfEachId : Json.Value :=
  .object [(templatesField, .array [plainEntry "a" "Ratio" "RPM/Boost",
    .object [("id", .text "a"), ("name", .text "Old ratio")], plainEntry "b" "Next" "RPM[1]"])]

theorem distinct_ids_of_oneReadableOfEachId :
    ∃ document, Document.read oneReadableOfEachId = .ok document ∧
      ∃ l, (ofDocument "/etc/library.json" oneReadableOfEachId).1 = l ∧ l.ids.Nodup ∧
        ((Document.entries oneReadableOfEachId).filter fun entry =>
          Document.Readable entry).Pairwise
            (fun entry entry' => entry.field? "id" ≠ entry'.field? "id") ∧
        (l.erase "a").find? "a" = none ∧
        ∃ first second, l.templates = [first, second] ∧ l.Meant [first] second [] := by
  have hread := Document.read_eq_ok_iff.2 ⟨⟨_, (rfl : oneReadableOfEachId = .object _)⟩, rfl⟩
  obtain ⟨-, hpairwise, hremoved, hmeant, -⟩ := distinct_ids_iff hread "/etc/library.json" rfl
  have hids : (ofDocument "/etc/library.json" oneReadableOfEachId).1.ids.Nodup := by decide +kernel
  exact ⟨_, hread, _, rfl, hids, hpairwise.1 hids, hremoved.1 hids "a" _ rfl, _, _, rfl,
    hmeant hids [_] _ [] rfl⟩

/-- Two templates of one id. -/
def twoOfOneId : Json.Value :=
  .object [(templatesField,
    .array [plainEntry "a" "Ratio" "RPM/Boost", plainEntry "a" "Next" "RPM[1]"])]

/-- Both templates of the id are read, and the second one is found when the first is removed. -/
theorem second_found_after_removal :
    ∃ document, Document.read twoOfOneId = .ok document ∧
      ¬ (document.templates.map Template.id).Nodup ∧
      ∃ l, (ofDocument "/etc/library.json" twoOfOneId).1 = l ∧
        ∃ first second, l.find? "a" = some first ∧ (l.erase "a").find? "a" = some second ∧
          first.name = "Ratio" ∧ second.name = "Next" := by
  refine ⟨_, rfl, ?_, _, rfl, _, _, rfl, rfl, rfl, rfl⟩
  decide +kernel

end Library

end VirtualChannels
