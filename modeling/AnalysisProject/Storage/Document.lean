import AnalysisProject.Storage.Draft
import AnalysisProject.Storage.Error

namespace AnalysisProject

namespace FileTable

def readText (t : FileTable) (filename : Text) : Except AccessError Text :=
  match validatePath filename with
  | .error e => .error (.path e)
  | .ok p =>
    match t.read p with
    | .error e => .error (.file e)
    | .ok content => .ok (Utf8.decode content)

def writeText (t : FileTable) (filename s : Text) : Except AccessError FileTable :=
  match validatePath filename with
  | .error e => .error (.path e)
  | .ok p =>
    match t.write p (Utf8.encode s) with
    | .error e => .error (.file e)
    | .ok t => .ok t

def readDocument (t : FileTable) (filename : Text) : Except ProjectError Text :=
  (t.readText filename).mapError (.cannotOpen filename)

def writeDocument (t : FileTable) (filename s : Text) : Except ProjectError FileTable :=
  (t.writeText filename s).mapError (.cannotWrite filename)

def load (t : FileTable) (filename : Text) : Except Raised Project.Parsed :=
  match t.readDocument filename with
  | .error e => .error (.error e)
  | .ok s =>
    match Project.parse s with
    | .parsed p => .ok p
    | .failed failure => .error (.error (.cannotParse failure))
    | .fault fault => .error (.fault fault)

def save (t : FileTable) (filename unit : Text) (d : Draft) : Except ProjectError FileTable :=
  match d.render unit with
  | .error fault => .error (.cannotRender filename fault)
  | .ok s => t.writeDocument filename s

end FileTable
end AnalysisProject
