import AnalysisProject.Proofs.Log.Body
import AnalysisProject.Proofs.Session.Effect

namespace AnalysisProject

namespace Session

variable (s : Session) (files : FileTable) (filename : Option Text)

def errorTexts (filename : Text) (e : ProjectError) : List (Text × Text) :=
  ("filename", filename) :: ("errorType", e.kind.name) :: ("message", e.message Fault.message) ::
    (e.details? Fault.message).toList.map fun details ↦ ("details", details)

def reportedLine (event filename : Text) (e : ProjectError) : Text :=
  Json.object
    [("timestamp", Json.string Log.timestamp), ("level", Json.string "warn"),
      ("component", Json.string "ProjectFile"), ("event", Json.string event),
      ("data", Json.object ((errorTexts filename e).map fun (key, s) ↦ (key, Json.string s)))] ++
    "\n"

structure Outcome.Answers (answering : Outcome Bool) (raising : Outcome Unit) (event name : Text) :
    Prop where
  session : answering.session = raising.session
  filename : answering.session.filename = name
  files : answering.files = raising.files
  yes : answering.result = .ok true ↔ raising.result = .ok ()
  no : answering.result = .ok false ↔ ∃ e, raising.result = .error (.error e)
  raises (r : Raised) : answering.result = .error r ↔ raising.result = .error r ∧ ∃ fault,
    r = .fault fault
  log : answering.log =
    match raising.result with
    | .ok () => raising.log
    | .error (.error e) => [reportedLine event name e]
    | .error (.fault _) => []

theorem errorLines_eq_singleton (event : Text) (e : ProjectError) :
    s.errorLines event e = [reportedLine event s.filename e] := by
  have hfields : s.errorFields e = Value.ofTexts (errorTexts s.filename e) := by
    rw [errorFields, errorTexts]
    cases e.details? Fault.message <;> rfl
  have hwrite (data : Option Log.Data) :
      s.logger.write .warn event data = [Log.line .warn "ProjectFile" event data] :=
    rfl
  rw [errorLines, hfields, hwrite, Log.line, Log.body_of_ok _ _ _ (Log.Data.json_ofTexts _)]
  rfl

/-- Where nothing has been logged before something went wrong, reporting it adds its line and
nothing else. -/
theorem Outcome.answers_report (o : Outcome Unit) (event : Text)
    (h : ∀ r, o.result = .error r → o.log = []) :
    (o.report event).Answers o event o.session.filename := by
  cases hr : o.result with
  | ok _ =>
    have hreport : o.report event = { o with result := .ok true } := by rw [report, hr]
    rw [hreport]
    exact ⟨rfl, rfl, rfl, by simp [hr], by simp [hr], by simp [hr], by rw [hr]⟩
  | error r =>
    cases r with
    | error e =>
      have hreport : o.report event =
          { o with log := [reportedLine event o.session.filename e], result := .ok false } := by
        rw [report, hr]
        simp only [h _ hr, List.nil_append, errorLines_eq_singleton]
      rw [hreport]
      refine ⟨rfl, rfl, rfl, by simp [hr], by simp [hr],
        fun r ↦ ⟨fun he ↦ ?_, fun he ↦ ?_⟩, by rw [hr]⟩
      · cases he
      · obtain ⟨hr', fault, rfl⟩ := he
        cases hr.symm.trans hr'
    | fault fault =>
      have hreport : o.report event = { o with log := [], result := .error (.fault fault) } := by
        rw [report, hr, h _ hr]
      rw [hreport]
      refine ⟨rfl, rfl, rfl, by simp [hr], by simp [hr],
        fun r ↦ ⟨fun he ↦ ?_, fun he ↦ ?_⟩, by rw [hr]⟩
      · obtain rfl := Except.error.inj he
        exact ⟨hr, fault, rfl⟩
      · obtain rfl := Except.error.inj (hr.symm.trans he.1)
        rfl

theorem log_load_of_error (r : Raised) (h : (s.load files filename).result = .error r) :
    (s.load files filename).log = [] := by
  rw [load] at h ⊢
  cases hd : files.readDocument (s.retarget filename).filename with
  | error e => rfl
  | ok text =>
    simp only [hd] at h ⊢
    cases hp : Project.parse text with
    | failed _ => rfl
    | fault _ => rfl
    | parsed p =>
      rw [hp] at h
      cases h

theorem log_save_of_error (r : Raised) (h : (s.save files filename).result = .error r) :
    (s.save files filename).log = [] := by
  rw [save_eq] at h ⊢
  split at h
  · rfl
  · cases h

/-- Reading is loading, and writing is saving, with errors reported instead of raised. -/
theorem answers_read_and_write :
    (s.read files filename).Answers (s.load files filename) "project_read_failed"
        ((filename.filter (!·.isEmpty)).getD s.filename) ∧
      (s.write files filename).Answers (s.save files filename) "project_write_failed"
        ((filename.filter (!·.isEmpty)).getD s.filename) := by
  constructor
  · rw [← filename_retarget, ← filename_load]
    exact Outcome.answers_report _ _ (s.log_load_of_error files filename)
  · rw [← filename_retarget, ← session_save]
    exact Outcome.answers_report _ _ (s.log_save_of_error files filename)

example :
    (Session.read {} ⟨FileTable.standing, [("/work/proj/a.xml", Utf8.encode "<a/>")]⟩
      (some "a.xml")).log =
    [Text.join ["\x7b\"timestamp\":\"T\",\"level\":\"warn\",\"component\":\"ProjectFile\",",
      "\"event\":\"project_read_failed\",\"data\":\x7b\"filename\":\"a.xml\",\"errorType\":\"schema_error\",",
      "\"message\":\"Not a project file: expected root element 'project'\",",
      "\"details\":\"Found 'a'\"\x7d\x7d\n"]] := by
  decide +kernel

end Session
end AnalysisProject
