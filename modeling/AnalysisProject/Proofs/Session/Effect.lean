import AnalysisProject.Proofs.Storage.FileTable
import AnalysisProject.Session.Command

namespace AnalysisProject

/-- The project that a reading leaves behind; where there is none, everything is cleared. -/
def Project.ParseResult.project : ParseResult → Project
  | .parsed p => p.project
  | _ => {}

namespace Session

variable (s : Session) (files : FileTable) (filename : Option Text)

theorem filename_retarget :
    (s.retarget filename).filename = (filename.filter (!·.isEmpty)).getD s.filename := by
  cases filename with
  | none => rfl
  | some name => cases name <;> rfl

@[simp] theorem project_retarget : (s.retarget filename).project = s.project := by
  cases filename with
  | none => rfl
  | some name =>
    rw [retarget]
    split <;> rfl

@[simp] theorem settings_retarget : (s.retarget filename).settings = s.settings := by
  cases filename with
  | none => rfl
  | some name =>
    rw [retarget]
    split <;> rfl

theorem session_load : (s.load files filename).session =
    match files.readDocument (s.retarget filename).filename with
    | .error _ => s.retarget filename
    | .ok text => { s.retarget filename with project := (Project.parse text).project } := by
  rw [load]
  cases files.readDocument (s.retarget filename).filename with
  | error e => rfl
  | ok text =>
    simp only
    cases Project.parse text <;> rfl

theorem filename_load :
    (s.load files filename).session.filename = (s.retarget filename).filename := by
  rw [session_load]
  split <;> rfl

theorem files_load : (s.load files filename).files = files := by
  rw [load]
  cases files.readDocument (s.retarget filename).filename with
  | error e => rfl
  | ok text =>
    simp only
    cases Project.parse text <;> rfl

theorem save_eq : s.save files filename =
    match files.writeDocument (s.retarget filename).filename (s.project.render s.settings.indentBy)
        with
    | .error e => ⟨s.retarget filename, files, [], .error (.error e)⟩
    | .ok t =>
      ⟨s.retarget filename, t, (s.retarget filename).logger.write .debug "project_written"
        (some (.ofFields [("filename", .text (s.retarget filename).filename)])), .ok ()⟩ := by
  cases hw : files.writeDocument (s.retarget filename).filename
    (s.project.render s.settings.indentBy) <;>
    simp only [save, Draft.save_ofProject, project_retarget, settings_retarget, hw]

theorem session_save : (s.save files filename).session = s.retarget filename := by
  rw [save_eq]
  split <;> rfl

theorem session_report (o : Outcome Unit) (event : Text) :
    (o.report event).session = o.session := by
  rw [Outcome.report]
  split <;> rfl

theorem files_report (o : Outcome Unit) (event : Text) : (o.report event).files = o.files := by
  rw [Outcome.report]
  split <;> rfl

theorem session_write : (s.write files filename).session = s.retarget filename :=
  (session_report _ _).trans (s.session_save files filename)

theorem project_save : (s.save files filename).session.project = s.project := by
  rw [session_save, project_retarget]

theorem project_write : (s.write files filename).session.project = s.project := by
  rw [session_write, project_retarget]

end Session
end AnalysisProject
