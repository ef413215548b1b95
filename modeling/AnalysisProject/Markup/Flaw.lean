import AnalysisProject.Text.Line
import AnalysisProject.Value.Json

namespace AnalysisProject.Markup

structure OpenTag where
  name : Text
  rest : Text
  deriving DecidableEq

inductive Flaw
  | blankTagName
  | badTagName (name : Text)
  | openQuote (tag : Text)
  | gluedAttribute (name : Text)
  | attributeWithoutValue (name : Text)
  | bareAttribute (name : Text)
  | badAttributeName (name : Text)
  | repeatedAttribute (name : Text)
  | unendedClosingTag (name : Text)
  | filledClosingTag (name : Text)
  | unopenedClosingTag (name : Text)
  | wrongClosingTag (name : Text) (expected : OpenTag)
  | unclosedTag (name : Text)
  | unclosedTags (names : List Text)
  | secondRoot
  | textAfterRoot
  | strayAmpersand
  | strayUnit (c : CodeUnit)
  | lateDeclaration
  | noTag
  deriving DecidableEq

namespace Flaw

def code : Flaw → Text
  | openQuote _ | gluedAttribute _ | attributeWithoutValue _ | bareAttribute _ | badAttributeName _
  | repeatedAttribute _ => "InvalidAttr"
  | strayAmpersand | strayUnit _ => "InvalidChar"
  | unclosedTags _ | secondRoot | textAfterRoot | lateDeclaration | noTag => "InvalidXml"
  | blankTagName | badTagName _ | unendedClosingTag _ | filledClosingTag _ | unopenedClosingTag _
  | wrongClosingTag _ _ | unclosedTag _ => "InvalidTag"

def message (source : Text) : Flaw → Text
  | blankTagName => "Invalid space after '<'."
  | badTagName name => Text.join ["Tag '", name, "' is an invalid name."]
  | openQuote tag => Text.join ["Attributes for '", tag, "' have open quote."]
  | gluedAttribute name => Text.join ["Attribute '", name, "' has no space in starting."]
  | attributeWithoutValue name => Text.join ["Attribute '", name, "' is without value."]
  | bareAttribute name => Text.join ["boolean attribute '", name, "' is not allowed."]
  | badAttributeName name => Text.join ["Attribute '", name, "' is an invalid name."]
  | repeatedAttribute name => Text.join ["Attribute '", name, "' is repeated."]
  | unendedClosingTag name => Text.join ["Closing tag '", name, "' doesn't have proper closing."]
  | filledClosingTag name =>
    Text.join ["Closing tag '", name, "' can't have attributes or invalid starting."]
  | unopenedClosingTag name => Text.join ["Closing tag '", name, "' has not been opened."]
  | wrongClosingTag name expected =>
    let opened := Position.ofRest source expected.rest
    Text.join ["Expected closing tag '", expected.name, "' (opened in line ",
      Text.decimal opened.line, ", col ", Text.decimal opened.column,
      ") instead of closing tag '", name, "'."]
  | unclosedTag name => Text.join ["Unclosed tag '", name, "'."]
  | unclosedTags names =>
    Text.join ["Invalid '[", Text.joinWith "," (names.map fun name ↦ "    " ++ Json.string name),
      "]' found."]
  | secondRoot => "Multiple possible root nodes found."
  | textAfterRoot => "Extra text at the end"
  | strayAmpersand => "char '&' is not expected."
  | strayUnit c => Text.join ["char '", [c], "' is not expected."]
  | lateDeclaration => "XML declaration allowed only at the start of the document."
  | noTag => "Start tag expected."

end Flaw

structure Refusal where
  flaw : Flaw
  rest : Text
  deriving DecidableEq

namespace Refusal

/-- The line and the column; a document without any tag has no column to name. -/
def place (source : Text) (r : Refusal) : Text × Text :=
  match r.flaw with
  | .noTag => ("1", "undefined")
  | .unclosedTags _ => ("1", "1")
  | _ =>
    let p := Position.ofRest source r.rest
    (Text.decimal p.line, Text.decimal p.column)

def details (source : Text) (r : Refusal) : Text :=
  Text.join [r.flaw.code, " at line ", (r.place source).1, ", column ", (r.place source).2]

end Refusal
end AnalysisProject.Markup
