import AnalysisProject.Text.Basic

namespace AnalysisProject

namespace CodeUnit

def nameStartRanges : List (CodeUnit × CodeUnit) :=
  [(0x3A, 0x3A), (0x41, 0x5A), (0x5F, 0x5F), (0x61, 0x7A), (0xC0, 0xD6), (0xD8, 0xF6),
    (0xF8, 0x2FF), (0x370, 0x37D), (0x37F, 0x1FFF), (0x200C, 0x200D), (0x2070, 0x218F),
    (0x2C00, 0x2FEF), (0x3001, 0xD7FF), (0xF900, 0xFDCF), (0xFDF0, 0xFFFD)]

def nameOnlyRanges : List (CodeUnit × CodeUnit) :=
  [(0x2D, 0x2E), (0x30, 0x39), (0xB7, 0xB7), (0x300, 0x36F), (0x203F, 0x2040)]

def isNameStart (c : CodeUnit) : Bool := nameStartRanges.any fun (low, high) ↦ low ≤ c && c ≤ high

def isNameUnit (c : CodeUnit) : Bool :=
  c.isNameStart || nameOnlyRanges.any fun (low, high) ↦ low ≤ c && c ≤ high

end CodeUnit

namespace Text

def isName : Text → Bool
  | [] => false
  | c :: s => c.isNameStart && s.all CodeUnit.isNameUnit

end Text
end AnalysisProject
