import AnalysisProject.Project.Canonical

namespace AnalysisProject

def release : Text := "0.1.0"

structure Settings where
  indentBy : Text := Project.defaultUnit
  debug : Bool := false
  reportClangAnalyzer : Bool := false
  deriving DecidableEq

structure GivenSettings where
  indentBy : Option Text := none
  debug : Option Bool := none
  reportClangAnalyzer : Option Bool := none
  deriving DecidableEq

end AnalysisProject
