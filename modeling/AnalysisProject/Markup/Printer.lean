import AnalysisProject.Markup.Reference
import AnalysisProject.Markup.Tree

namespace AnalysisProject.Markup

open CodeUnit

namespace Attributes

def render (attributes : Attributes) : Text :=
  attributes.flatMap fun (name, value) ↦ Text.join [" ", name, "=\"", Reference.escape value, "\""]

end Attributes

namespace Node

def isElement : Node → Bool
  | text _ => false
  | element _ _ _ => true

/-- An element around its content, as it is already written. What the content looks like decides on
the layout: an element without content is an empty tag; behind content that ends with a tag, the
closing tag stands on a line of its own; other content with a tag in it is set off on both sides;
and anything else stands directly between the tags. -/
def enclose (unit indent name : Text) (attributes : Attributes) (content : Text) : Text :=
  let head := Text.join [indent, "<", name, attributes.render]
  if content.isEmpty then head ++ "/>"
  else if Text.endsIn greater content then Text.join [head, ">", content, indent, "</", name, ">"]
  else if !indent.isEmpty && (Text.occursIn "/>" content || Text.occursIn "</" content) then
    Text.join [head, ">", indent, unit, content, indent, "</", name, ">"]
  else Text.join [head, ">", content, "</", name, ">"]

mutual

/-- A node behind `indent`, which is empty or a line feed and the indentation of that node. -/
def render (unit indent : Text) : Node → Text
  | text s => Reference.escape s
  | element name attributes children =>
    enclose unit indent name attributes
      (renderAll unit (if indent.isEmpty then [] else indent ++ unit) children)

def renderAll (unit indent : Text) : List Node → Text
  | [] => []
  | node :: nodes => render unit indent node ++ renderAll unit indent nodes

end

def renderTop (unit : Text) (node : Node) : Text :=
  node.render unit (if unit.isEmpty then [] else [lineFeed])

end Node
end AnalysisProject.Markup
