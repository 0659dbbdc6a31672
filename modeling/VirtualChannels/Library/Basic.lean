import VirtualChannels.Json.Value
import VirtualChannels.Template
import VirtualChannels.Text.Lowercase

/-
  The library of templates, and the document that it is kept in.
-/

namespace VirtualChannels

/-! ## Documents

An object with a version and a list of templates. Reading one keeps what can be used. A field of
the wrong kind gets its default and an entry without an id, a name or a formula is dropped, each
without regard to the others. -/

open Json (Value)

def versionField : Text := "version"

def templatesField : Text := "templates"

/-- The version that new documents have, and the default where one is missing. -/
def currentVersion : Float := 1.0

structure Document where
  version : Float
  templates : List Template
  dropped : Nat

/-- A document that is not there, or one that is no object but a value of another kind. -/
inductive DocumentError where
  | missing
  | notObject (found : Text)

def DocumentError.message : DocumentError → Text
  | missing => "(root): Required"
  | notObject found => Text.join ["(root): Expected object, received ", found]

namespace Document

/-- A whole number that is not negative, else the default. -/
def naturalOr (default : Float) (v : Option Value) : Float :=
  match v.bind Value.number? with
  | some x => if Number.isNatural x then x else default
  | none => default

def textOrEmpty (v : Option Value) : Text := (v.bind Value.text?).getD []

/-- The template of an entry, if it has what every template needs. -/
def readTemplate? (entry : Value) : Option Template :=
  match (entry.field? "id").bind Value.text?, (entry.field? "name").bind Value.text?,
      (entry.field? "formula").bind Value.text? with
  | some id, some name, some formula =>
    if id = [] then none
    else some
      { id, name, formula
        unit := textOrEmpty (entry.field? "unit")
        description := textOrEmpty (entry.field? "description")
        category := textOrEmpty (entry.field? "category")
        createdAt := naturalOr 0.0 (entry.field? "created_at")
        modifiedAt := naturalOr 0.0 (entry.field? "modified_at") }
  | _, _, _ => none

/-- The entries of a document; none where they are no list. -/
def entries (v : Value) : List Value := ((v.field? templatesField).bind Value.array?).getD []

/-- Reads a document, which has to be an object. -/
def read (v : Value) : Except DocumentError Document :=
  match v with
  | .object _ =>
    let templates := (entries v).filterMap readTemplate?
    .ok
      { version := naturalOr currentVersion (v.field? versionField)
        templates
        dropped := (entries v).length - templates.length }
  | v => .error (.notObject v.kind)

/-- Reads a document that may be missing. -/
def readOption : Option Value → Except DocumentError Document
  | none => .error .missing
  | some v => read v

def writeTemplate (t : Template) : Value :=
  .object
    [("id", .text t.id), ("name", .text t.name), ("formula", .text t.formula),
      ("unit", .text t.unit), ("description", .text t.description),
      ("category", .text t.category), ("created_at", .number t.createdAt),
      ("modified_at", .number t.modifiedAt)]

/-- The document of a version and templates. -/
def write (version : Float) (templates : List Template) : Value :=
  .object
    [(versionField, .number version), (templatesField, .array (templates.map writeTemplate))]

end Document

/-! ## Libraries

Templates in order, with the version of their document. Operations on an id mean the first
template that has it, and leave the library as it is where none has. -/

structure Library where
  version : Float := currentVersion
  templates : List Template := []

/-- Whether a text in lower case occurs in the name, the formula or the category. -/
def Template.mentions (needle : Text) (t : Template) : Bool :=
  Text.occursIn needle t.name.lowercase || Text.occursIn needle t.formula.lowercase
    || Text.occursIn needle t.category.lowercase

namespace Library

def empty : Library := {}

def size (l : Library) : Nat := l.templates.length

def find? (l : Library) (id : Text) : Option Template := l.templates.find? fun t => t.id == id

def add (l : Library) (t : Template) : Library := { l with templates := l.templates ++ [t] }

def erase (l : Library) (id : Text) : Library :=
  { l with templates := l.templates.eraseP fun t => t.id == id }

/-- Changes the first template with an id. -/
def modifyFirst (change : Template → Template) (id : Text) : List Template → List Template
  | [] => []
  | t :: rest => if t.id == id then change t :: rest else t :: modifyFirst change id rest

/-- Edits the template with an id where it stands. -/
def update (l : Library) (now : Instant) (id : Text) (e : TemplateEdit) : Library :=
  { l with templates := modifyFirst (Template.edit now e) id l.templates }

/-- Adds a copy of the template with an id at the end. -/
def duplicate (l : Library) (freshId : Text) (now : Instant) (id : Text) : Library :=
  match l.find? id with
  | some t => l.add (t.duplicate freshId now)
  | none => l

/-- The templates that mention a query, blanks around it and letter case left out of account;
all of them where the query is blank. -/
def search (l : Library) (query : Text) : List Template :=
  let needle := Text.lowercase query.trim
  if needle = [] then l.templates else l.templates.filter (Template.mentions needle)

def toJson (l : Library) : Json.Value := Document.write l.version l.templates

end Library

end VirtualChannels
