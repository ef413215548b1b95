import AnalysisProject.Fault
import AnalysisProject.Project.Canonical

namespace AnalysisProject

structure Draft where
  /-- The settings; the lists in it do not count. -/
  base : Project
  list : ListField → Option (List Text)
  suppressions : Option (List Suppression)

namespace Draft

def project? (d : Draft) : Option Project := do
  let suppressions ← d.suppressions
  let p ← ListField.all.foldlM (fun p field ↦ (d.list field).map (p.setList · field)) d.base
  return { p with suppressions }

def ofProject (p : Project) : Draft := ⟨p, fun field ↦ some (p.list field), some p.suppressions⟩

def render (unit : Text) (d : Draft) : Except Fault Text :=
  match d.project? with
  | some p => .ok (p.render unit)
  | none => .error .noList

end Draft
end AnalysisProject
