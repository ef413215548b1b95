import AnalysisProject.Log.Line
import AnalysisProject.Settings.Basic
import AnalysisProject.Storage.Document

namespace AnalysisProject

structure Session where
  filename : Text := []
  project : Project := {}
  settings : Settings := {}

namespace Session

structure Outcome (α : Type) where
  session : Session
  files : FileTable
  log : List Text
  result : Except Raised α

def logger (s : Session) : Logger := ⟨"ProjectFile", s.settings.debug⟩

def clear (s : Session) : Session := { s with project := {} }

/-- Takes over a name for the file, unless none is given or it is empty. -/
def retarget (s : Session) : Option Text → Session
  | none => s
  | some name => if name.isEmpty then s else { s with filename := name }

def versionLines (l : Logger) (version : Option Text) : List Text :=
  if version = some Layout.version then []
  else
    l.write .debug "unexpected_schema_version"
      (some (.ofFields [("version", (version.map Value.text).getD .null)]))

def errorFields (s : Session) (e : ProjectError) : List (Text × Value) :=
  let details : List (Text × Value) :=
    match e.details? Fault.message with
    | some details => [("details", .text details)]
    | none => []
  ("filename", .text s.filename) :: ("errorType", .text e.kind.name)
    :: ("message", .text (e.message Fault.message)) :: details

def errorLines (s : Session) (event : Text) (e : ProjectError) : List Text :=
  s.logger.write .warn event (some (.ofFields (s.errorFields e)))

/-- Loads the project from a file. Where the file can be read but holds no project, the settings are
left cleared. -/
def load (s : Session) (files : FileTable) (filename : Option Text) : Outcome Unit :=
  let s := s.retarget filename
  match files.readDocument s.filename with
  | .error e => ⟨s, files, [], .error (.error e)⟩
  | .ok text =>
    match Project.parse text with
    | .failed failure => ⟨s.clear, files, [], .error (.error (.cannotParse failure))⟩
    | .fault fault => ⟨s.clear, files, [], .error (.fault fault)⟩
    | .parsed p =>
      let s := { s with project := p.project }
      let log := versionLines s.logger p.version ++ s.logger.write .debug "project_read"
        (some (.ofFields [("filename", .text s.filename),
          ("suppressions", .number (.integer p.project.suppressions.length))]))
      ⟨s, files, log, .ok ()⟩

def save (s : Session) (files : FileTable) (filename : Option Text) : Outcome Unit :=
  let s := s.retarget filename
  match files.save s.filename s.settings.indentBy (.ofProject s.project) with
  | .error e => ⟨s, files, [], .error (.error e)⟩
  | .ok files =>
    ⟨s, files,
      s.logger.write .debug "project_written" (some (.ofFields [("filename", .text s.filename)])),
      .ok ()⟩

namespace Outcome

/-- Answers whether an operation succeeded. An error is logged instead of being raised; a fault is
raised all the same. -/
def report (o : Outcome Unit) (event : Text) : Outcome Bool :=
  match o.result with
  | .ok () => { o with result := .ok true }
  | .error (.error e) =>
    { o with log := o.log ++ o.session.errorLines event e, result := .ok false }
  | .error (.fault f) => { o with result := .error (.fault f) }

end Outcome

def read (s : Session) (files : FileTable) (filename : Option Text) : Outcome Bool :=
  (s.load files filename).report "project_read_failed"

def write (s : Session) (files : FileTable) (filename : Option Text) : Outcome Bool :=
  (s.save files filename).report "project_write_failed"

def reopen (s : Session) (files : FileTable) (filename : Text) : Outcome Unit :=
  Session.load { filename, settings := s.settings } files none

def list (s : Session) : ListField → List Text
  | .includeDirs => s.project.includeDirs.map Text.forwardSlashes
  | .checkPaths => s.project.checkPaths.map Text.forwardSlashes
  | .excludedPaths => s.project.excludedPaths.map Text.forwardSlashes
  | field => s.project.list field

/-- The flag as it is shown: the analyzer counts as off unless the settings have it reported. -/
def flag (s : Session) : FlagField → Bool
  | .clangAnalyzer => s.settings.reportClangAnalyzer && s.project.clangAnalyzer
  | field => s.project.flag field

def addonsAndTools (s : Session) : List Text := s.project.addons ++ s.project.tools

def baseDirectory (s : Session) : AbsolutePath :=
  let directory :=
    if s.filename.isEmpty then AbsolutePath.working
    else (AbsolutePath.working.resolve s.filename).parent
  if s.project.rootPath.isEmpty then directory else directory.resolve s.project.rootPath

end Session
end AnalysisProject
