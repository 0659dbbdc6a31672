import Mathlib.Data.List.Nodup
import VirtualChannels.Library.Basic

/-
  Runs of a library. A run is any sequence of calls, each at an instant of the clock. What one
  call does to ids, to creation times and to the templates of other ids is said once for all
  operations (`births_after`, `untouched_after`), and from it by induction what a run does
  (`births_run`, `untouched_run`).
-/

namespace VirtualChannels

/-- What a template has from its addition on. -/
def Template.birth (t : Template) : Text × Float := (t.id, t.createdAt)

namespace Library

inductive Operation where
  | add (t : Template)
  | erase (id : Text)
  | update (id : Text) (e : TemplateEdit)
  | duplicate (id freshId : Text)
  | find (id : Text)
  | search (query : Text)

structure Call where
  now : Instant
  operation : Operation

/-- The library after a call. -/
def after (l : Library) (c : Call) : Library :=
  match c.operation with
  | .add t => l.add t
  | .erase id => l.erase id
  | .update id e => l.update c.now id e
  | .duplicate id freshId => l.duplicate freshId c.now id
  | .find _ => l
  | .search _ => l

/-- The library after calls, of which the last one made is listed first. -/
def run (l : Library) : List Call → Library
  | [] => l
  | c :: earlier => (l.run earlier).after c

theorem run_append (l : Library) (later earlier : List Call) :
    l.run (later ++ earlier) = (l.run earlier).run later := by
  induction later with
  | nil => rfl
  | cons c later ih => rw [List.cons_append, run, run, ih]

/-! ## What a call is about -/

namespace Call

/-- The id that a call asks for. -/
def asked? (c : Call) : Option Text :=
  match c.operation with
  | .erase id | .update id _ | .duplicate id _ | .find id => some id
  | .add _ | .search _ => none

/-- Whether a call erases the template with an id. -/
def erases (c : Call) (id : Text) : Bool :=
  match c.operation with
  | .erase i => id == i
  | _ => false

/-- Whether a call adds, erases or edits the template with an id. -/
def concerns (c : Call) (id : Text) : Bool :=
  match c.operation with
  | .add t => id == t.id
  | .erase i | .update i _ => id == i
  | .duplicate _ freshId => id == freshId
  | .find _ | .search _ => false

/-- The template that a call adds to a library. -/
def added? (c : Call) (l : Library) : Option Template :=
  match c.operation with
  | .add t => some t
  | .duplicate id freshId => (l.find? id).map (Template.duplicate freshId c.now)
  | _ => none

end Call

/-- Whether one of the calls erases the template with an id. -/
def erased (calls : List Call) (id : Text) : Bool := calls.any fun c => c.erases id

/-- Whether one of the calls adds, erases or edits the template with an id. -/
def concerned (calls : List Call) (id : Text) : Bool := calls.any fun c => c.concerns id

def ids (l : Library) : List Text := l.templates.map Template.id

def births (l : Library) : List (Text × Float) := l.templates.map Template.birth

/-- What was added and not erased since, in the order of the additions. -/
def newcomers (l : Library) : List Call → List (Text × Float)
  | [] => []
  | c :: earlier =>
    (l.newcomers earlier).filter (fun b => !c.erases b.1) ++
      ((c.added? (l.run earlier)).map Template.birth).toList

/-- Every template that is added has an id that none has in the library it is added to. -/
def Admitted (l : Library) : List Call → Prop
  | [] => True
  | c :: earlier =>
    l.Admitted earlier ∧ ∀ t ∈ c.added? (l.run earlier), t.id ∉ (l.run earlier).ids

instance decidableAdmitted (l : Library) : (calls : List Call) → Decidable (l.Admitted calls)
  | [] => isTrue trivial
  | _ :: earlier => @instDecidableAnd _ _ (decidableAdmitted l earlier) inferInstance

theorem Admitted.of_append {l : Library} {later earlier : List Call}
    (h : l.Admitted (later ++ earlier)) : l.Admitted earlier ∧ (l.run earlier).Admitted later := by
  induction later with
  | nil => exact ⟨h, trivial⟩
  | cons c later ih =>
    obtain ⟨hbefore, hfresh⟩ := h
    obtain ⟨hearlier, hlater⟩ := ih hbefore
    exact ⟨hearlier, hlater, run_append l later earlier ▸ hfresh⟩

/-! ## Changing and erasing in a list -/

section
variable {change : Template → Template} {id : Text} {ts : List Template}

theorem map_modifyFirst {β : Type} {f : Template → β} (h : ∀ t, f (change t) = f t) (id : Text)
    (ts : List Template) : (modifyFirst change id ts).map f = ts.map f := by
  induction ts with
  | nil => rfl
  | cons t rest ih =>
    unfold modifyFirst
    split
    · rw [List.map_cons, List.map_cons, h]
    · rw [List.map_cons, List.map_cons, ih]

theorem filter_modifyFirst (h : ∀ t, (change t).id = t.id) (id : Text) (ts : List Template) :
    (modifyFirst change id ts).filter (fun t => !(t.id == id)) =
      ts.filter fun t => !(t.id == id) := by
  induction ts with
  | nil => rfl
  | cons t rest ih =>
    unfold modifyFirst
    split
    · rename_i ht
      simp only [List.filter_cons, h, ht, Bool.not_true, Bool.false_eq_true, if_false]
    · rw [List.filter_cons, List.filter_cons, ih]

theorem modifyFirst_of_not_mem (h : id ∉ ts.map Template.id) : modifyFirst change id ts = ts := by
  induction ts with
  | nil => rfl
  | cons t rest ih =>
    rw [List.map_cons, List.mem_cons, not_or] at h
    rw [modifyFirst, if_neg fun ht => h.1 (beq_iff_eq.1 ht).symm, ih h.2]

theorem mem_modifyFirst {t : Template} (h : t ∈ modifyFirst change id ts) :
    t ∈ ts ∨ ∃ s ∈ ts, t = change s := by
  induction ts with
  | nil => cases h
  | cons s rest ih =>
    unfold modifyFirst at h
    split at h
    · rcases List.mem_cons.1 h with rfl | hrest
      · exact Or.inr ⟨s, List.mem_cons_self, rfl⟩
      · exact Or.inl (List.mem_cons_of_mem s hrest)
    · rcases List.mem_cons.1 h with rfl | hrest
      · exact Or.inl List.mem_cons_self
      · rcases ih hrest with hmem | ⟨s', hs', heq⟩
        · exact Or.inl (List.mem_cons_of_mem s hmem)
        · exact Or.inr ⟨s', List.mem_cons_of_mem s hs', heq⟩

/-- Where no id comes twice, the first template with an id is all there are. -/
theorem eraseP_eq_filter (h : (ts.map Template.id).Nodup) :
    ts.eraseP (fun t => t.id == id) = ts.filter fun t => !(t.id == id) := by
  induction ts with
  | nil => rfl
  | cons t rest ih =>
    rw [List.map_cons, List.nodup_cons] at h
    by_cases ht : t.id = id
    · have hrest : rest.filter (fun t => !(t.id == id)) = rest := by
        refine List.filter_eq_self.2 fun s hs => ?_
        have hne : s.id ≠ id := fun he => h.1 (List.mem_map.2 ⟨s, hs, he.trans ht.symm⟩)
        rw [beq_eq_false_iff_ne.2 hne]
        rfl
      simp only [List.eraseP_cons, List.filter_cons, ht, beq_self_eq_true, Bool.not_true,
        Bool.false_eq_true, if_false, cond_true, hrest]
    · simp only [List.eraseP_cons, List.filter_cons, beq_eq_false_iff_ne.2 ht, Bool.not_false,
        if_true, cond_false, ih h.2]

end

/-! ## What one call does -/

section
variable {l : Library} {c : Call}

theorem ids_eq (l : Library) : l.ids = l.births.map Prod.fst := by
  unfold ids births
  rw [List.map_map]
  rfl

theorem find?_eq_none {id : Text} (h : id ∉ l.ids) : l.find? id = none := by
  refine List.find?_eq_none.2 fun t ht he => h (List.mem_map.2 ⟨t, ht, ?_⟩)
  exact beq_iff_eq.1 he

/-- Where no id comes twice, a call takes away the template it erases and puts the one it adds
behind the others; edits keep ids and creation times. -/
theorem births_after (hl : l.ids.Nodup) (c : Call) :
    (l.after c).births = l.births.filter (fun b => !c.erases b.1) ++
      ((c.added? l).map Template.birth).toList := by
  obtain ⟨now, operation⟩ := c
  have hadd (t : Template) : (l.add t).births = l.births.filter (fun _ => true) ++ [t.birth] := by
    rw [List.filter_true, births, births, add, List.map_append, List.map_singleton]
  have hsame : l.births = l.births.filter (fun _ => true) ++ [] := by
    rw [List.filter_true, List.append_nil]
  cases operation with
  | add t => exact hadd t
  | erase id =>
    show (l.templates.eraseP fun t => t.id == id).map Template.birth = _ ++ []
    rw [eraseP_eq_filter hl, List.append_nil, births, List.filter_map]
    rfl
  | update id e =>
    have hedit (t : Template) : (t.edit now e).birth = t.birth := rfl
    exact (map_modifyFirst hedit id l.templates).trans hsame
  | duplicate id freshId =>
    show (l.duplicate freshId now id).births = l.births.filter (fun _ => true) ++
      (((l.find? id).map (Template.duplicate freshId now)).map Template.birth).toList
    unfold duplicate
    cases l.find? id with
    | none => exact hsame
    | some t => exact hadd _
  | find id => exact hsame
  | search query => exact hsame

theorem nodup_ids_after (hl : l.ids.Nodup) (hfresh : ∀ t ∈ c.added? l, t.id ∉ l.ids) :
    (l.after c).ids.Nodup := by
  have hkept : ((l.births.filter fun b => !c.erases b.1).map Prod.fst).Sublist l.ids := by
    rw [ids_eq]
    exact List.filter_sublist.map Prod.fst
  rw [ids_eq, births_after hl, List.map_append]
  cases hadded : c.added? l with
  | none => simpa using hkept.nodup hl
  | some t =>
    refine List.nodup_append.2 ⟨hkept.nodup hl, List.nodup_singleton _, ?_⟩
    intro id hid id' hid' heq
    have hid'' : id' = t.id := List.mem_singleton.1 hid'
    exact hfresh t hadded (hid'' ▸ heq ▸ hkept.subset hid)

/-- A call leaves every template as it is whose id it does not concern. -/
theorem untouched_after (hl : l.ids.Nodup) (c : Call) :
    (l.after c).templates.filter (fun t => !c.concerns t.id) =
      l.templates.filter fun t => !c.concerns t.id := by
  obtain ⟨now, operation⟩ := c
  have hadd {id : Text} {t : Template} (ht : t.id = id) :
      (l.add t).templates.filter (fun s => !(s.id == id)) =
        l.templates.filter fun s => !(s.id == id) := by
    have hnone : [t].filter (fun s => !(s.id == id)) = [] := by
      rw [List.filter_singleton, ht, beq_self_eq_true]
      rfl
    rw [add, List.filter_append, hnone, List.append_nil]
  cases operation with
  | add t => exact hadd rfl
  | erase id =>
    show (l.templates.eraseP fun t => t.id == id).filter (fun t => !(t.id == id)) = _
    rw [eraseP_eq_filter hl, List.filter_filter]
    simp only [Bool.and_self]
    rfl
  | update id e =>
    have hedit (t : Template) : (t.edit now e).id = t.id := rfl
    exact filter_modifyFirst hedit id l.templates
  | duplicate id freshId =>
    show (l.duplicate freshId now id).templates.filter (fun t => !(t.id == freshId)) =
      l.templates.filter fun t => !(t.id == freshId)
    unfold duplicate
    cases l.find? id with
    | none => rfl
    | some t => exact hadd rfl
  | find id => rfl
  | search query => rfl

/-- A call that asks for an id that no template has changes nothing. -/
theorem after_of_unknown {id : Text} (hc : c.asked? = some id) (h : id ∉ l.ids) :
    l.after c = l := by
  obtain ⟨now, operation⟩ := c
  cases operation with
  | add t => cases hc
  | erase i =>
    cases hc
    show { l with templates := l.templates.eraseP _ } = l
    rw [List.eraseP_of_forall_not fun t ht he => h (List.mem_map.2 ⟨t, ht, beq_iff_eq.1 he⟩)]
  | update i e =>
    cases hc
    show { l with templates := modifyFirst _ _ l.templates } = l
    rw [modifyFirst_of_not_mem h]
  | duplicate i freshId =>
    cases hc
    show l.duplicate freshId now id = l
    rw [duplicate, find?_eq_none h]
  | find i => rfl
  | search query => cases hc

end

/-! ## What a run does -/

section
variable {l : Library} {calls : List Call}

theorem nodup_ids_run (hl : l.ids.Nodup) (h : l.Admitted calls) : (l.run calls).ids.Nodup := by
  induction calls with
  | nil => exact hl
  | cons c earlier ih => exact nodup_ids_after (ih h.1) h.2

theorem births_run (hl : l.ids.Nodup) (h : l.Admitted calls) :
    (l.run calls).births =
      l.births.filter (fun b => !erased calls b.1) ++ l.newcomers calls := by
  induction calls with
  | nil =>
    show l.births = l.births.filter (fun _ => true) ++ []
    rw [List.filter_true, List.append_nil]
  | cons c earlier ih =>
    rw [run, births_after (nodup_ids_run hl h.1), ih h.1, List.filter_append, List.filter_filter,
      newcomers, List.append_assoc]
    congr 1
    refine List.filter_congr fun b _ => ?_
    rw [erased, erased, List.any_cons, Bool.not_or]

theorem untouched_run (hl : l.ids.Nodup) (h : l.Admitted calls) :
    (l.run calls).templates.filter (fun t => !concerned calls t.id) =
      l.templates.filter fun t => !concerned calls t.id := by
  induction calls with
  | nil => rfl
  | cons c earlier ih =>
    have hcalls (t : Template) :
        (!concerned (c :: earlier) t.id) = (!c.concerns t.id && !concerned earlier t.id) := by
      rw [concerned, List.any_cons, Bool.not_or]
      rfl
    -- The templates that neither `c` nor the calls before it concern, told by `c` first or last.
    have hlast (ts : List Template) : ts.filter (fun t => !concerned (c :: earlier) t.id) =
        (ts.filter fun t => !c.concerns t.id).filter fun t => !concerned earlier t.id := by
      simp only [List.filter_filter, hcalls, Bool.and_comm]
    have hfirst (ts : List Template) : ts.filter (fun t => !concerned (c :: earlier) t.id) =
        (ts.filter fun t => !concerned earlier t.id).filter fun t => !c.concerns t.id := by
      simp only [List.filter_filter, hcalls]
    calc ((l.run earlier).after c).templates.filter (fun t => !concerned (c :: earlier) t.id)
      _ = (l.run earlier).templates.filter fun t => !concerned (c :: earlier) t.id := by
        rw [hlast, untouched_after (nodup_ids_run hl h.1), ← hlast]
      _ = l.templates.filter fun t => !concerned (c :: earlier) t.id := by
        rw [hfirst, ih h.1, ← hfirst]

end

end Library

end VirtualChannels
