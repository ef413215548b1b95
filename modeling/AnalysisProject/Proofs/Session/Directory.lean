import AnalysisProject.Proofs.Session.Effect
import AnalysisProject.Proofs.Storage.Path

namespace AnalysisProject

open AbsolutePath CodeUnit

namespace Session

variable (s : Session)

/-- The directory of the document, which is the working directory as long as the file has no name.
-/
def documentDirectory : AbsolutePath :=
  if s.filename = [] then working else (working.resolve s.filename).parent

structure Accesses (p : AbsolutePath) : Prop where
  load (files : FileTable) :
    match files.read p with
    | .error e => (s.load files none).result = .error (.error (.cannotOpen s.filename (.file e)))
    | .ok content =>
      (s.load files none).session =
        { s with project := (Project.parse (Utf8.decode content)).project }
  save (files : FileTable) :
    match files.write p (Utf8.encode (s.project.render s.settings.indentBy)) with
    | .error e =>
      (s.save files none).files = files ∧
        (s.save files none).result = .error (.error (.cannotWrite s.filename (.file e)))
    | .ok written => (s.save files none).files = written ∧ (s.save files none).result = .ok ()

theorem accesses_of_validatePath {p : AbsolutePath} (h : validatePath s.filename = .ok p) :
    s.Accesses p := by
  constructor
  · intro files
    cases hread : files.read p with
    | error e =>
      simp [load, retarget, FileTable.readDocument, FileTable.readText, h, hread, Except.mapError]
    | ok content =>
      simp [session_load, retarget, FileTable.readDocument, FileTable.readText, h, hread,
        Except.mapError]
  · intro files
    cases hwrite : files.write p (Utf8.encode (s.project.render s.settings.indentBy)) with
    | error e =>
      simp [save_eq, retarget, FileTable.writeDocument, FileTable.writeText, h, hwrite,
        Except.mapError]
    | ok written =>
      simp [save_eq, retarget, FileTable.writeDocument, FileTable.writeText, h, hwrite,
        Except.mapError]

theorem isNormal_documentDirectory : s.documentDirectory.IsNormal := by
  rw [documentDirectory]
  split
  · exact isNormal_working
  · exact (isNormal_resolve isNormal_working s.filename).parent

theorem baseDirectory_eq_resolve :
    s.baseDirectory = s.documentDirectory.resolve s.project.rootPath := by
  simp only [baseDirectory, documentDirectory, List.isEmpty_iff]
  split
  · next h => rw [h, resolve_nil]
  · rfl

theorem isNormal_baseDirectory : s.baseDirectory.IsNormal := by
  rw [baseDirectory_eq_resolve]
  exact isNormal_resolve s.isNormal_documentDirectory s.project.rootPath

theorem resolve_of_absolute {p q : AbsolutePath} {t : Text} (h : Text.startsWith "/" t = true) :
    p.resolve t = q.resolve t := by
  rw [resolve, resolve, if_pos h, if_pos h]

/-- Paths reach the file table in normal form, and the base directory is in the same form. -/
theorem baseDirectory_agrees :
    (∀ t : Text, (∃ e, validatePath t = .error e) ↔ t = [] ∨ 0 ∈ t) ∧
      (∀ (t : Text) (p : AbsolutePath), validatePath t = .ok p →
        p.text.IsNormalPath ∧ validatePath p.text = .ok p) ∧
      ∀ s : Session,
        s.baseDirectory.text.IsNormalPath ∧
        s.baseDirectory = s.documentDirectory.resolve s.project.rootPath ∧
        s.baseDirectory =
          working.resolve (if Text.startsWith "/" s.project.rootPath then s.project.rootPath
            else s.documentDirectory.text ++ slash :: s.project.rootPath) ∧
        (Text.startsWith "/" s.project.rootPath = true →
          ∀ filename, ({ s with filename } : Session).baseDirectory = s.baseDirectory) ∧
        (s.project.rootPath = [] → s.filename ≠ [] → 0 ∉ s.filename →
          (working.resolve s.filename).text ≠ "/" →
          ∃ p, validatePath s.filename = .ok p ∧ s.Accesses p ∧
            p.text.IsDirectlyIn s.baseDirectory.text) := by
  refine ⟨exists_error_validatePath_iff, ?_, fun s ↦ ⟨?_, s.baseDirectory_eq_resolve, ?_, ?_, ?_⟩⟩
  · intro t p h
    exact ⟨isNormalPath_text (isNormal_of_validatePath h), validatePath_text h⟩
  · exact isNormalPath_text s.isNormal_baseDirectory
  · rw [baseDirectory_eq_resolve]
    split
    · next h => exact resolve_of_absolute h
    · next h =>
        exact (resolve_text_append s.isNormal_documentDirectory (Bool.eq_false_iff.mpr h)).symm
  · intro h filename
    rw [baseDirectory_eq_resolve, baseDirectory_eq_resolve]
    exact resolve_of_absolute h
  · intro hroot hname hnul hne
    have hpath : validatePath s.filename = .ok (working.resolve s.filename) :=
      validatePath_eq_ok_iff.mpr ⟨hname, hnul, rfl⟩
    have hnormal := isNormal_of_validatePath hpath
    have hbase : s.baseDirectory = (working.resolve s.filename).parent := by
      rw [baseDirectory_eq_resolve, hroot, resolve_nil, documentDirectory, if_neg hname]
    refine ⟨_, hpath, s.accesses_of_validatePath hpath, ?_⟩
    rw [hbase]
    exact isDirectlyIn_parent hnormal fun he ↦ hne ((text_eq_root_iff hnormal).mpr he)

theorem baseDirectory_agrees_roundabout :
    let s : Session := { filename := "../..//../work/./proj/sub/x/../p.xml" }
    validatePath "//work/../sub/" = .ok ⟨["sub"]⟩ ∧ validatePath "/sub" = .ok ⟨["sub"]⟩ ∧
      s.baseDirectory.text = "/work/proj/sub" ∧
      (∃ p, validatePath s.filename = .ok p ∧ s.Accesses p ∧
        p.text.IsDirectlyIn s.baseDirectory.text) ∧
      ∀ filename, ({ filename, project := { rootPath := "/sub/" } } : Session).baseDirectory.text =
        "/sub" := by
  intro s
  have hsub : validatePath "//work/../sub/" = .ok ⟨["sub"]⟩ := by decide
  have hparent := (baseDirectory_agrees.2.2 s).2.2.2.2 rfl (by decide) (by decide) (by decide)
  refine ⟨hsub, (baseDirectory_agrees.2.1 _ _ hsub).2, by decide, hparent, fun filename ↦ ?_⟩
  have hbase := (baseDirectory_agrees.2.2 { project := { rootPath := "/sub/" } }).2.2.2.1
    (by decide) filename
  rw [hbase]
  decide

end Session
end AnalysisProject
