import AnalysisProject.Text.Basic

namespace AnalysisProject

open CodeUnit

structure Position where
  line : Nat
  column : Nat
  deriving DecidableEq

namespace Position

def start : Position := ⟨1, 1⟩

/-- The position reached from `p` by passing over a text. A carriage return before a line feed makes
no difference, since the line feed starts a line anyway. -/
def advance (p : Position) : Text → Position
  | [] => p
  | c :: s => advance (if c = lineFeed then ⟨p.line + 1, 1⟩ else ⟨p.line, p.column + 1⟩) s

def ofRest (source rest : Text) : Position :=
  start.advance (source.take (source.length - rest.length))

end Position

namespace Text

/-- The flag says that a carriage return has just become a line feed. -/
def unifyFrom (afterReturn : Bool) : Text → Text
  | [] => []
  | c :: s =>
    if c = carriageReturn then lineFeed :: unifyFrom true s
    else if afterReturn && c = lineFeed then unifyFrom false s
    else c :: unifyFrom false s

/-- Every line ends with a line feed: `CR LF` and a lone `CR` become `LF`. -/
def unifyLines (s : Text) : Text := unifyFrom false s

end Text
end AnalysisProject
