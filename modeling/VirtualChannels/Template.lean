import VirtualChannels.Journal

/-
  Templates: definitions of computed channels that belong to no recording. A template is a
  value; an edit gives a new one with the same id, the same creation time and a new time of
  modification.
-/

namespace VirtualChannels

structure Template where
  id : Text
  name : Text
  formula : Text
  unit : Text
  description : Text
  category : Text
  createdAt : Float
  modifiedAt : Float

/-- What a new template is made from. -/
structure TemplateDraft where
  name : Text
  formula : Text
  unit : Option Text := none
  description : Option Text := none
  category : Option Text := none

/-- New values for some of the parts that may be edited. -/
structure TemplateEdit where
  name : Option Text := none
  formula : Option Text := none
  unit : Option Text := none
  description : Option Text := none
  category : Option Text := none

namespace Template

/-- A new template with an id that is not in use. -/
def create (freshId : Text) (now : Instant) (draft : TemplateDraft) : Template where
  id := freshId
  name := draft.name
  formula := draft.formula
  unit := draft.unit.getD []
  description := draft.description.getD []
  category := draft.category.getD []
  createdAt := now.seconds
  modifiedAt := now.seconds

def touch (now : Instant) (t : Template) : Template := { t with modifiedAt := now.seconds }

/-- Writes new values over the parts that an edit names. -/
def withEdit (e : TemplateEdit) (t : Template) : Template :=
  { t with
    name := e.name.getD t.name
    formula := e.formula.getD t.formula
    unit := e.unit.getD t.unit
    description := e.description.getD t.description
    category := e.category.getD t.category }

def edit (now : Instant) (e : TemplateEdit) (t : Template) : Template :=
  (t.withEdit e).touch now

def copySuffix : Text := " (copy)"

/-- A new template with the definition of another one. -/
def duplicate (freshId : Text) (now : Instant) (t : Template) : Template :=
  { t with
    id := freshId
    name := t.name ++ copySuffix
    createdAt := now.seconds
    modifiedAt := now.seconds }

end Template

end VirtualChannels
