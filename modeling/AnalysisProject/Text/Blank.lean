import AnalysisProject.Text.Basic

namespace AnalysisProject

namespace CodeUnit

/-- The blanks of the Unicode standard, the line ends and the byte-order mark. -/
def isBlank (c : CodeUnit) : Bool :=
  0x09 ≤ c && c ≤ 0x0D || c == 0x20 || c == 0xA0 || c == 0x1680 || 0x2000 ≤ c &&
    c ≤ 0x200A || c == 0x2028
    || c == 0x2029 || c == 0x202F || c == 0x205F || c == 0x3000 || c == 0xFEFF

def isXmlSpace (c : CodeUnit) : Bool :=
  c == space || c == tab || c == lineFeed || c == carriageReturn

theorem isBlank_of_isXmlSpace {c : CodeUnit} (h : c.isXmlSpace = true) : c.isBlank = true := by
  simp only [isXmlSpace, Bool.or_eq_true, beq_iff_eq] at h
  rcases h with ((h | h) | h) | h <;> subst h <;> rfl

end CodeUnit

namespace Text

def trimStart (s : Text) : Text := s.dropWhile CodeUnit.isBlank

def trimEnd (s : Text) : Text := (s.reverse.dropWhile CodeUnit.isBlank).reverse

def trim (s : Text) : Text := s.trimStart.trimEnd

theorem length_trimStart_le (s : Text) : s.trimStart.length ≤ s.length :=
  (List.dropWhile_sublist _).length_le

theorem length_lt_of_dropWhile {p : CodeUnit → Bool} {s t : Text} {c : CodeUnit}
    (h : s.dropWhile p = c :: t) :
    t.length < s.length := by
  have := (List.dropWhile_sublist (l := s) p).length_le
  rw [h, List.length_cons] at this
  omega

theorem length_dropWhile_le (p : CodeUnit → Bool) (s : Text) : (s.dropWhile p).length ≤ s.length :=
  (List.dropWhile_sublist p).length_le

end Text
end AnalysisProject
