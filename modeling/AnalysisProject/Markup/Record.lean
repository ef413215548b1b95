import AnalysisProject.Value.Basic

namespace AnalysisProject.Markup

/-- A node as a record: its one field named neither `#text` nor `:@` bears the name of the element
and holds its children, and `:@` holds its attributes under marked names. A text is the field
`#text`. -/
abbrev Record := List (Text × Value)

namespace Record

def textKey : Text := "#text"

def attributesKey : Text := ":@"

def attributeMark : Text := "@_"

def ofValue : Value → List Record
  | .list items => items.filterMap fun v ↦
      match v with
      | .record fields => some fields
      | _ => none
  | _ => []

def name? (r : Record) : Option Text :=
  (r.find? fun (key, _) ↦ key != attributesKey && key != textKey && !Text.startsWith "?" key).map
    Prod.fst

def children (r : Record) (name : Text) : List Record := ofValue ((Value.field? r name).getD .null)

def elements (r : Record) (name : Text) : List Record := (r.children name).filter (·.name?.isSome)

def attribute? (r : Record) (name : Text) : Option Text :=
  match Value.field? r attributesKey with
  | some (.record attributes) =>
    (Value.field? attributes (attributeMark ++ name)).bind Value.scalarText?
  | _ => none

def content (r : Record) (name : Text) : Text :=
  (r.children name).flatMap fun child ↦ ((Value.field? child textKey).bind Value.scalarText?).getD
    []

/-- The record of an element. Without attributes it has no field for them. -/
def element (name : Text) (children : Value) (attributes : Record) : Record :=
  if attributes.isEmpty then [(name, children)]
  else Value.setField attributesKey
    (.record (attributes.map fun (key, v) ↦ (attributeMark ++ key, v))) [(name, children)]

def textElement (name s : Text) (attributes : Record) : Record :=
  element name (.list (if s.isEmpty then [] else [.record [(textKey, .text s)]])) attributes

end Record
end AnalysisProject.Markup
