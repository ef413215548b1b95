import AnalysisProject.Project.Basic
import AnalysisProject.Text.Blank

namespace AnalysisProject

namespace Text

def digitsValue (s : Text) : Nat := s.foldl (fun n c ↦ 10 * n + c.digitValue) 0

def dropSign (s : Text) : Text := if startsWith "+" s || startsWith "-" s then s.drop 1 else s

/-- Whether a text is an optional sign and at least one digit, with white space around them. -/
def isInteger (s : Text) : Bool :=
  let digits := s.trimStart.dropSign
  digits.head?.any CodeUnit.isDigit && (digits.dropWhile CodeUnit.isDigit).all CodeUnit.isBlank

/-- The integer with which a text begins, after white space. Whatever follows its digits is left
out. -/
def leadingInteger (s : Text) : Number :=
  let digits := s.trimStart.dropSign.takeWhile CodeUnit.isDigit
  if digits.isEmpty then .nan
  else Number.ofDecimal (startsWith "-" s.trimStart) (digitsValue digits) 0

end Text

namespace LineNumber

def parse (raw : Text) : Number :=
  if raw.isInteger then
    let n := raw.leadingInteger
    if isValid n then n else unset
  else unset

def ofAttribute (raw : Option Text) : Number := (raw.map parse).getD unset

end LineNumber
end AnalysisProject
