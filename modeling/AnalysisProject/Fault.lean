import AnalysisProject.Text.Basic

namespace AnalysisProject

/-- What comes up where something is asked of what is not there. -/
inductive Fault
  | registerLost
  | noTag
  | noParentForText
  | noParentForSection
  | noParentForElement
  | noList
  deriving DecidableEq

namespace Fault

def message : Fault → Text
  | registerLost => "the register of attribute names is lost"
  | noTag => "Cannot read properties of undefined (reading 'tagName')"
  | noParentForText => "Cannot read properties of undefined (reading 'child')"
  | noParentForSection => "Cannot read properties of undefined (reading 'tagname')"
  | noParentForElement => "Cannot read properties of undefined (reading 'addChild')"
  | noList => "Cannot read properties of null (reading 'length')"

end Fault
end AnalysisProject
