import AnalysisProject.Text.Search
import AnalysisProject.Text.Small
import AnalysisProject.Value.Basic

namespace AnalysisProject

open CodeUnit

namespace Text

def forwardSlashes (s : Text) : Text := s.map fun c ↦ if c = backslash then slash else c

/-- Whether a platform is described by a document: its name ends in `.xml`, in letters of either
case. -/
def isPlatformFile (s : Text) : Bool := (".xml" : Text).isSuffixOf s.small

def pathParts : Text → List Text
  | [] => [[]]
  | c :: s =>
    if c = slash then [] :: pathParts s
    else
      match pathParts s with
      | [] => [[c]]
      | part :: parts => (c :: part) :: parts

end Text

/-- A path by its segments, none of which is empty, a dot or two dots where it has been resolved. -/
structure AbsolutePath where
  segments : List Text
  deriving DecidableEq

namespace AbsolutePath

/-- One part further: an empty one and a dot stay, two dots go up, and any other goes down. -/
def enter (segments : List Text) (part : Text) : List Text :=
  if part.isEmpty || part == "." then segments
  else if part == ".." then segments.dropLast
  else segments ++ [part]

def root : AbsolutePath := ⟨[]⟩

def working : AbsolutePath := ⟨["work", "proj"]⟩

def resolve (directory : AbsolutePath) (s : Text) : AbsolutePath :=
  ⟨s.pathParts.foldl enter (if Text.startsWith "/" s then [] else directory.segments)⟩

def text (p : AbsolutePath) : Text := slash :: Text.joinWith "/" p.segments

def parent (p : AbsolutePath) : AbsolutePath := ⟨p.segments.dropLast⟩

def ancestors (p : AbsolutePath) : List AbsolutePath :=
  (List.range p.segments.length).map fun n ↦ ⟨p.segments.take n⟩

end AbsolutePath

inductive PathError
  | notText (given : Text)
  | empty
  | nullByte (given : Text)
  deriving DecidableEq

namespace PathError

def message : PathError → Text
  | notText _ => "Path must be a string"
  | empty => "Path cannot be empty"
  | nullByte _ => "Path cannot contain null bytes"

def given : PathError → Text
  | notText s => s
  | empty => []
  | nullByte s => s

end PathError

def validatePath (s : Text) : Except PathError AbsolutePath :=
  if s.isEmpty then .error .empty
  else if s.contains 0 then .error (.nullByte s)
  else .ok (AbsolutePath.working.resolve s)

def validatePathValue : Value → Except PathError AbsolutePath
  | .text s => validatePath s
  | v => .error (.notText v.plainText)

end AnalysisProject
