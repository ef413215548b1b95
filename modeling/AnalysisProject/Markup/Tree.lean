import AnalysisProject.Text.Basic

namespace AnalysisProject.Markup

abbrev Attributes := List (Text × Text)

namespace Attributes

/-- Sets the value of a name; a name that is there already keeps its place. -/
def set (name value : Text) : Attributes → Attributes
  | [] => [(name, value)]
  | (key, v) :: attributes =>
    if key = name then (key, value) :: attributes else (key, v) :: set name value attributes

end Attributes

inductive Node
  | text (s : Text)
  | element (name : Text) (attributes : Attributes) (children : List Node)

namespace Node

def textName : Text := "#text"

/-- The name of an element. An element called `#text` or `:@` is told from a text or from attributes
by nothing, and one with a question mark in front counts as an instruction; they have no name. -/
def name? : Node → Option Text
  | text _ => none
  | element name _ _ =>
    if name == textName || name == ":@" || Text.startsWith "?" name then none else some name

def attribute? (name : Text) : Node → Option Text
  | text _ => none
  | element _ attributes _ => attributes.lookup name

def elements : Node → List Node
  | text _ => []
  | element _ _ children => children.filter fun child ↦ child.name?.isSome

def content : Node → Text
  | text _ => []
  | element _ _ children => children.flatMap fun child ↦
      match child with
      | text s => s
      | element _ _ _ => []

end Node
end AnalysisProject.Markup
