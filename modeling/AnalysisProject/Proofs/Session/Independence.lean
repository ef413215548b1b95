import AnalysisProject.Proofs.Log.Level
import AnalysisProject.Proofs.Session.Effect
import AnalysisProject.Proofs.Session.Run
import AnalysisProject.Proofs.Storage.Relaid

namespace AnalysisProject

open Project

/-- Two sessions with one project and one name of its file, each with its own settings, among files
that differ in layout only. -/
structure World.Twins (settings settings' : Settings) (w w' : World) : Prop where
  filename : w.session.filename = w'.session.filename
  project : w.session.project = w'.session.project
  left : w.session.settings = settings
  right : w'.session.settings = settings'
  files : w.files.IsRelaid settings.indentBy settings'.indentBy w'.files

namespace Session

structure Outcome.Twins {α : Type} (settings settings' : Settings) (o o' : Outcome α) : Prop where
  world : World.Twins settings settings' ⟨o.session, o.files⟩ ⟨o'.session, o'.files⟩
  log : settings.debug = false → o.log = o'.log.filter (!Log.isDebug ·)
  result : o.result = o'.result

variable {settings settings' : Settings} {s s' : Session} {files files' : FileTable}

section

variable (h : World.Twins settings settings' ⟨s, files⟩ ⟨s', files'⟩)

include h

theorem logger_write (hd : settings.debug = false) (level : Log.Level) (event : Text)
    (data : Option Log.Data) :
    s.logger.write level event data =
      (s'.logger.write level event data).filter (!Log.isDebug ·) := by
  have hdebug : s.settings.debug = false := (congrArg Settings.debug h.left).trans hd
  rw [Logger.filter_write, logger, logger, hdebug]

theorem versionLines_logger (hd : settings.debug = false) (version : Option Text) :
    versionLines s.logger version = (versionLines s'.logger version).filter (!Log.isDebug ·) := by
  rw [versionLines, versionLines]
  split
  · rfl
  · exact logger_write h hd _ _ _

theorem errorLines_eq (hd : settings.debug = false) (event : Text) (e : ProjectError) :
    s.errorLines event e = (s'.errorLines event e).filter (!Log.isDebug ·) := by
  have hfields : s.errorFields e = s'.errorFields e := by rw [errorFields, errorFields, h.filename]
  rw [errorLines, errorLines, hfields]
  exact logger_write h hd _ _ _

theorem twins_retarget (filename : Option Text) :
    World.Twins settings settings' ⟨s.retarget filename, files⟩ ⟨s'.retarget filename, files'⟩ where
  filename := by
    simp only [filename_retarget]
    rw [h.filename]
  project := by
    simp only [project_retarget]
    exact h.project
  left := (s.settings_retarget filename).trans h.left
  right := (s'.settings_retarget filename).trans h.right
  files := h.files

theorem twins_load (hunit : ReadsAlike settings.indentBy settings'.indentBy)
    (filename : Option Text) :
    Outcome.Twins settings settings' (s.load files filename) (s'.load files' filename) := by
  have h := twins_retarget h filename
  have hname := h.filename
  have hread := h.files.readDocument hunit (s'.retarget filename).filename
  simp only at hname
  rw [load, load]
  simp only [hname]
  generalize files.readDocument (s'.retarget filename).filename = e,
    files'.readDocument (s'.retarget filename).filename = e' at hread
  cases hread with
  | error e => exact ⟨h, fun _ ↦ rfl, rfl⟩
  | @ok text text' hparse =>
    simp only [hparse]
    cases parse text' with
    | failed failure => exact ⟨⟨h.filename, rfl, h.left, h.right, h.files⟩, fun _ ↦ rfl, rfl⟩
    | fault fault => exact ⟨⟨h.filename, rfl, h.left, h.right, h.files⟩, fun _ ↦ rfl, rfl⟩
    | parsed p =>
      have h : World.Twins settings settings'
          ⟨⟨(s'.retarget filename).filename, p.project, (s.retarget filename).settings⟩, files⟩
          ⟨⟨(s'.retarget filename).filename, p.project, (s'.retarget filename).settings⟩, files'⟩ :=
        ⟨rfl, rfl, h.left, h.right, h.files⟩
      refine ⟨h, fun hd ↦ ?_, rfl⟩
      simp only [List.filter_append]
      rw [versionLines_logger h hd, logger_write h hd]

theorem twins_save (filename : Option Text) :
    Outcome.Twins settings settings' (s.save files filename) (s'.save files' filename) := by
  have hproject := h.project
  have hleft := h.left
  have hright := h.right
  have h := twins_retarget h filename
  have hname := h.filename
  simp only at hproject hleft hright hname
  rw [save_eq, save_eq, hname, hproject, hleft, hright]
  have hwrite := h.files.writeDocument (s'.retarget filename).filename s'.project
  generalize files.writeDocument _ _ = e, files'.writeDocument _ _ = e' at hwrite
  cases hwrite with
  | error e => exact ⟨h, fun _ ↦ rfl, rfl⟩
  | ok ht =>
    exact ⟨⟨h.filename, h.project, h.left, h.right, ht⟩, fun hd ↦ logger_write h hd _ _ _, rfl⟩

end

theorem Outcome.Twins.report {o o' : Outcome Unit} (h : Outcome.Twins settings settings' o o')
    (event : Text) :
    Outcome.Twins settings settings' (o.report event) (o'.report event) := by
  obtain ⟨hworld, hlog, hresult⟩ := h
  rw [Outcome.report, Outcome.report, ← hresult]
  split
  · exact ⟨hworld, hlog, rfl⟩
  · refine ⟨hworld, fun hd ↦ ?_, rfl⟩
    simp only [List.filter_append]
    rw [hlog hd, errorLines_eq hworld hd]
  · exact ⟨hworld, hlog, rfl⟩

theorem Outcome.Twins.map {α β : Type} {o o' : Outcome α}
    (h : Outcome.Twins settings settings' o o') (f : α → β) :
    Outcome.Twins settings settings' (o.map f) (o'.map f) :=
  ⟨h.world, h.log, congrArg (Except.map f) h.result⟩

section

variable (h : World.Twins settings settings' ⟨s, files⟩ ⟨s', files'⟩)

include h

theorem answer_eq {query : Query} (hq : query ≠ .flag .clangAnalyzer) :
    s.answer query = s'.answer query := by
  have hname : s.filename = s'.filename := h.filename
  have hproject : s.project = s'.project := h.project
  cases query with
  | flag field =>
    cases field with
    | clangAnalyzer => exact absurd rfl hq
    | _ => simp only [answer, Session.flag, hproject]
  | list field => cases field <;> simp only [answer, Session.list, hproject]
  | _ => simp only [answer, addonsAndTools, baseDirectory, hname, hproject]

theorem twins_update (f : Project → Project) (a : Answer) :
    Outcome.Twins settings settings' (.quiet { s with project := f s.project } files a)
      (.quiet { s' with project := f s'.project } files' a) :=
  ⟨⟨h.filename, congrArg f h.project, h.left, h.right, h.files⟩, fun _ ↦ rfl, rfl⟩

theorem twins_perform (hunit : ReadsAlike settings.indentBy settings'.indentBy) {c : Command}
    (hc : c ≠ .ask (.flag .clangAnalyzer)) :
    Outcome.Twins settings settings' (s.perform files c) (s'.perform files' c) := by
  cases c with
  | setFilename name => exact ⟨⟨rfl, h.project, h.left, h.right, h.files⟩, fun _ ↦ rfl, rfl⟩
  | setText field t => exact twins_update h (·.setText t field) .nothing
  | setFlag field b => exact twins_update h (·.setFlag b field) .nothing
  | setList field values => exact twins_update h (·.setList values field) .nothing
  | setSuppressions values => exact twins_update h ({ · with suppressions := values }) .nothing
  | clear => exact twins_update h (fun _ ↦ {}) .nothing
  | load filename => exact (twins_load h hunit filename).map _
  | save filename => exact (twins_save h filename).map _
  | read filename => exact ((twins_load h hunit filename).report _).map _
  | write filename => exact ((twins_save h filename).report _).map _
  | ask query =>
    have hquery : query ≠ .flag .clangAnalyzer := fun he ↦ hc (congrArg Command.ask he)
    exact ⟨h, fun _ ↦ rfl, congrArg Except.ok (answer_eq h hquery)⟩

end

end Session

/-- What is the same about two steps: everything but the layout of the files, the lines for
debugging and what is said about the analyzer. -/
structure Step.Agrees (settings settings' : Settings) (step step' : Step) : Prop where
  event : step.event = step'.event
  after : World.Twins settings settings' (step.world.after step.event)
    (step'.world.after step'.event)
  log : settings.debug = false → step.outcome.log = step'.outcome.log.filter (!Log.isDebug ·)
  result : step.event ≠ .perform (.ask (.flag .clangAnalyzer)) → step.outcome.result =
    step'.outcome.result

namespace World

variable {settings settings' : Settings} {w w' : World}

theorem Twins.step (h : Twins settings settings' w w')
    (hunit : ReadsAlike settings.indentBy settings'.indentBy)
    (c : Session.Command) : Step.Agrees settings settings' ⟨w, .perform c⟩ ⟨w', .perform c⟩ := by
  by_cases hc : c = .ask (.flag .clangAnalyzer)
  · subst hc
    exact ⟨rfl, h, fun _ ↦ rfl, fun hne ↦ absurd rfl hne⟩
  · have hperform := Session.twins_perform h hunit hc
    exact ⟨rfl, hperform.world, hperform.log, fun _ ↦ hperform.result⟩

theorem Twins.history (h : Twins settings settings' w w')
    (hunit : ReadsAlike settings.indentBy settings'.indentBy) (commands : List Session.Command) :
    List.Forall₂ (Step.Agrees settings settings') (w.history (commands.map .perform))
      (w'.history (commands.map .perform)) := by
  induction commands generalizing w w' with
  | nil => exact .nil
  | cons c commands ih =>
    have hstep := h.step hunit c
    exact .cons hstep (ih hstep.after)

def log (history : List Step) : List Text := history.flatMap (·.outcome.log)

theorem log_of_agrees {history history' : List Step}
    (h : List.Forall₂ (Step.Agrees settings settings') history history')
    (hd : settings.debug = false) : log history = (log history').filter (!Log.isDebug ·) := by
  induction h with
  | nil => rfl
  | cons hstep _ ih =>
    rw [log, log] at ih ⊢
    rw [List.flatMap_cons, List.flatMap_cons, List.filter_append, ih, hstep.log hd]

def fresh (name : Text) (files : FileTable) (settings : Settings) : World :=
  ⟨{ filename := name, settings }, files⟩

theorem twins_fresh (name : Text) (files : FileTable) (settings settings' : Settings) :
    Twins settings settings' (fresh name files settings) (fresh name files settings') :=
  ⟨rfl, rfl, rfl, rfl, .refl _ _ _⟩

/-- The settings of a session do not show in what it edits. Debug mode does not even show in the
files; it adds its lines to the log, and nothing else. -/
theorem agrees_run (name : Text) (files : FileTable) (settings settings' : Settings)
    (commands : List Session.Command) :
    (IsIndentation settings.indentBy → IsIndentation settings'.indentBy →
      List.Forall₂ (Step.Agrees settings settings')
        ((fresh name files settings).history (commands.map .perform))
        ((fresh name files settings').history (commands.map .perform))) ∧
    (settings.debug = false → settings' = { settings with debug := true } →
      List.Forall₂ (fun step step' ↦ step.Agrees settings settings' step' ∧ step.outcome.files =
        step'.outcome.files)
        ((fresh name files settings).history (commands.map .perform))
        ((fresh name files settings').history (commands.map .perform)) ∧
      log ((fresh name files settings).history (commands.map .perform)) =
        (log ((fresh name files settings').history (commands.map .perform))).filter
          (!Log.isDebug ·)) := by
  have h := twins_fresh name files settings settings'
  refine ⟨fun hu hu' ↦ h.history (hu.readsAlike hu') commands, fun hd he ↦ ?_⟩
  have hunit : settings.indentBy = settings'.indentBy := by rw [he]
  have hhistory := h.history (hunit ▸ .refl _) commands
  refine ⟨hhistory.imp fun step step' hstep ↦ ⟨hstep, ?_⟩, log_of_agrees hhistory hd⟩
  have hfiles := hstep.after.files
  rw [hunit] at hfiles
  exact hfiles.eq

/-- A project that is saved, loaded from its own file, and cannot be saved elsewhere. -/
def edits : List Session.Command := [
  .setText .rootPath "a", .setFlag .clangAnalyzer true, .save (some "x.xml"), .clear, .load none,
  .ask (.flag .clangAnalyzer), .write (some "/")]

def editing (settings : Settings) : List Step :=
  (fresh [] ⟨FileTable.standing, []⟩ settings).history (edits.map .perform)

def tabbed : Settings := { indentBy := "\t", debug := true, reportClangAnalyzer := true }

theorem agrees_run_edits :
    (IsIndentation ({} : Settings).indentBy ∧ IsIndentation tabbed.indentBy ∧
      List.Forall₂ (Step.Agrees {} tabbed) (editing {}) (editing tabbed) ∧
      (editing {}).map (·.outcome.files.content? "/work/proj/x.xml") ≠
        (editing tabbed).map (·.outcome.files.content? "/work/proj/x.xml")) ∧
    (log (editing {})).length = 1 ∧ (log (editing { debug := true })).length = 3 ∧
      log (editing {}) = (log (editing { debug := true })).filter (!Log.isDebug ·) := by
  have hu : IsIndentation ({} : Settings).indentBy := by decide
  have hu' : IsIndentation tabbed.indentBy := by decide
  have hagrees := (agrees_run [] ⟨FileTable.standing, []⟩ {} tabbed edits).1 hu hu'
  have hlog := ((agrees_run [] ⟨FileTable.standing, []⟩ {} { debug := true } edits).2 rfl rfl).2
  exact ⟨⟨hu, hu', hagrees, by decide +kernel⟩, by decide +kernel, by decide +kernel, hlog⟩

end World
end AnalysisProject
