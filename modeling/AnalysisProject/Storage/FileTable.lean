import AnalysisProject.Storage.Path
import AnalysisProject.Text.Utf8

namespace AnalysisProject

structure FileTable where
  directories : List Text
  files : List (Text × Bytes)

namespace FileTable

inductive Access
  | read
  | write
  deriving DecidableEq

inductive Failure
  | isDirectory (access : Access) (path : Text)
  | notDirectory (path : Text)
  | notFound (path : Text)
  deriving DecidableEq

namespace Failure

def message : Failure → Text
  | isDirectory .read _ => "EISDIR: illegal operation on a directory, read"
  | isDirectory .write path =>
    Text.join ["EISDIR: illegal operation on a directory, open '", path, "'"]
  | notDirectory path => Text.join ["ENOTDIR: not a directory, open '", path, "'"]
  | notFound path => Text.join ["ENOENT: no such file or directory, open '", path, "'"]

end Failure

def standing : List Text := ["/", "/work", "/work/proj"]

def content? (t : FileTable) (path : Text) : Option Bytes := t.files.lookup path

def isFile (t : FileTable) (path : Text) : Bool := (t.content? path).isSome

def put (t : FileTable) (path : Text) (content : Bytes) : FileTable :=
  { t with files := (path, content) :: t.files.filter fun (key, _) ↦ key != path }

def allow (t : FileTable) (access : Access) (p : AbsolutePath) : Except Failure Unit :=
  if t.directories.contains p.text then .error (.isDirectory access p.text)
  else if p.ancestors.any (t.isFile ·.text) then .error (.notDirectory p.text)
  else if t.directories.contains p.parent.text then .ok ()
  else .error (.notFound p.text)

def read (t : FileTable) (p : AbsolutePath) : Except Failure Bytes :=
  match t.allow .read p with
  | .error e => .error e
  | .ok () =>
    match t.content? p.text with
    | some content => .ok content
    | none => .error (.notFound p.text)

def write (t : FileTable) (p : AbsolutePath) (content : Bytes) : Except Failure FileTable :=
  (t.allow .write p).map fun () ↦ t.put p.text content

end FileTable
end AnalysisProject
