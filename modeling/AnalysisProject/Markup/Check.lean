import AnalysisProject.Fault
import AnalysisProject.Markup.Flaw
import AnalysisProject.Markup.Name
import AnalysisProject.Markup.Tag

namespace AnalysisProject.Markup

open CodeUnit

namespace Check

inductive Failure
  | refused (refusal : Refusal)
  | fault (fault : Fault)
  deriving DecidableEq

def refuse {α : Type} (flaw : Flaw) (rest : Text) : Except Failure α :=
  .error (.refused ⟨flaw, rest⟩)

def skipBrackets : Nat → Text → Text
  | _, [] => []
  | depth, c :: s =>
    if c = less then skipBrackets (depth + 1) s
    else if c = greater then if depth ≤ 1 then s else skipBrackets (depth - 1) s
    else skipBrackets depth s

/-- The text after a comment, a document type declaration or a character section, of which the
exclamation mark has been read. Other text is not skipped, and neither is one of these at the very
end. -/
def skipExclamation (s : Text) : Text :=
  if Text.startsWith "--" s && 4 < s.length then Text.afterOrEnd "-->" (s.drop 2)
  else if Text.startsWith "DOCTYPE" s && 7 < s.length then skipBrackets 1 (s.drop 7)
  else if Text.startsWith "[CDATA[" s && 8 < s.length then Text.afterOrEnd "]]>" (s.drop 7)
  else s

def skipNamed : Nat → Text → Option Text
  | _, [] => some []
  | n, c :: s =>
    if c.isWord && 0 < n then skipNamed (n - 1) s else if c = semicolon then some s else none

def skipNumeric (isDigit : CodeUnit → Bool) (s : Text) : Option Text :=
  if Text.startsWith ";" (s.dropWhile isDigit) then some ((s.dropWhile isDigit).drop 1) else none

/-- The text after a reference, of which the ampersand has been read. A name has at most twenty
characters. -/
def skipReference? (s : Text) : Option Text :=
  if Text.startsWith ";" s then none
  else if Text.startsWith "#x" s then skipNumeric CodeUnit.isHexDigit (s.drop 2)
  else if Text.startsWith "#" s then skipNumeric CodeUnit.isDigit (s.drop 1)
  else skipNamed 20 s

theorem length_skipBrackets_le (depth : Nat) (s : Text) :
    (skipBrackets depth s).length ≤ s.length := by
  fun_induction skipBrackets depth s <;> simp_all <;> omega

theorem length_skipExclamation_le (s : Text) : (skipExclamation s).length ≤ s.length := by
  have h₁ := Text.length_afterOrEnd_le "-->" (s.drop 2)
  have h₂ := length_skipBrackets_le 1 (s.drop 7)
  have h₃ := Text.length_afterOrEnd_le "]]>" (s.drop 7)
  simp only [List.length_drop] at h₁ h₂ h₃
  rw [skipExclamation]
  split
  · omega
  · split
    · omega
    · split <;> omega

theorem length_skipNamed {n : Nat} {s rest : Text} (h : skipNamed n s = some rest) :
    rest.length ≤ s.length := by
  fun_induction skipNamed n s with
  | case1 => simp_all
  | case2 n c s _ ih =>
    have := ih h
    simp only [List.length_cons]
    omega
  | case3 => simp_all
  | case4 => simp_all

theorem length_skipNumeric {p : CodeUnit → Bool} {s rest : Text} (h : skipNumeric p s = some rest) :
    rest.length ≤ s.length := by
  have := Text.length_dropWhile_le p s
  rw [skipNumeric] at h
  split at h
  · cases h
    rw [List.length_drop]
    omega
  · contradiction

theorem length_skipReference? {s rest : Text} (h : skipReference? s = some rest) :
    rest.length ≤ s.length := by
  rw [skipReference?] at h
  split at h
  · contradiction
  · split at h
    · have := length_skipNumeric h
      rw [List.length_drop] at this
      omega
    · split at h
      · have := length_skipNumeric h
        rw [List.length_drop] at this
        omega
      · exact length_skipNamed h

/-- Passes the content after a tag: the text from the next tag on, without its `<`. -/
def skipContent (isAfterRoot : Bool) : Text → Except Failure (Option Text)
  | [] => .ok none
  | c :: s =>
    if c = less then
      if Text.startsWith "!" s then
        have := length_skipExclamation_le (s.drop 1)
        skipContent isAfterRoot (skipExclamation (s.drop 1))
      else if Text.startsWith "?" s then
        have := Text.length_afterOrEnd_le "?>" s
        skipContent isAfterRoot (Text.afterOrEnd "?>" s)
      else .ok (some s)
    else if c = ampersand then
      match h : skipReference? s with
      | some t =>
        have := length_skipReference? h
        skipContent isAfterRoot t
      | none => refuse .strayAmpersand (c :: s)
    else if isAfterRoot && !c.isXmlSpace then refuse .textAfterRoot (c :: s)
    else skipContent isAfterRoot s
termination_by s => s.length
decreasing_by
  all_goals
    simp_all only [List.length_cons, List.length_drop]
    omega

def skipProlog (isStart : Bool) : Text → Except Failure (Option Text)
  | [] => .ok none
  | c :: s =>
    if c = less then
      if Text.startsWith "!" s then
        have := length_skipExclamation_le (s.drop 1)
        skipProlog false (skipExclamation (s.drop 1))
      else if Text.startsWith "?" s then
        if !isStart && (Text.startsWith "?xml?" s || Text.startsWith "?xml " s) then
          refuse .lateDeclaration (s.drop 4)
        else
          have := Text.length_afterOrEnd_le "?>" (s.drop 1)
          skipProlog false (Text.afterOrEnd "?>" (s.drop 1))
      else .ok (some s)
    else if c.isXmlSpace then skipProlog false s
    else refuse (.strayUnit c) (c :: s)
termination_by s => s.length
decreasing_by
  all_goals
    simp_all only [List.length_cons, List.length_drop]
    omega

/-- A tag as it stands after its `<`. The name goes up to white space or the `>`; a slash at its end
is taken to be the first character of what follows it. -/
structure Tag where
  isClosing : Bool
  name : Text
  afterName : Text

namespace Tag

def isNameUnit (c : CodeUnit) : Bool := c != greater && !c.isXmlSpace

def ofName (isClosing : Bool) (raw rest : Text) : Tag :=
  if raw.trim.endsIn slash then ⟨isClosing, raw.trim.dropLast, raw.drop (raw.length - 1) ++ rest⟩
  else ⟨isClosing, raw.trim, rest⟩

def read (s : Text) : Tag :=
  let isClosing := Text.startsWith "/" s
  let s := if isClosing then s.drop 1 else s
  ofName isClosing (s.takeWhile isNameUnit) (s.dropWhile isNameUnit)

def span (t : Tag) : TagSpan := spanTag id none t.afterName

def next (t : Tag) : Text := t.span.rest.drop 1

theorem length_ofName_le (isClosing : Bool) (raw rest : Text) :
    (ofName isClosing raw rest).afterName.length ≤ raw.length + rest.length := by
  rw [ofName]
  split
  · simp only [List.length_append, List.length_drop]
    omega
  · exact Nat.le_add_left _ _

theorem length_afterName_le (s : Text) : (read s).afterName.length ≤ s.length := by
  have hs (s : Text) :
      (s.takeWhile isNameUnit).length + (s.dropWhile isNameUnit).length = s.length := by
    rw [← List.length_append, List.takeWhile_append_dropWhile]
  refine Nat.le_trans (length_ofName_le _ _ _) ?_
  rw [hs]
  split <;> simp

theorem length_next_le (s : Text) : (read s).next.length ≤ s.length := by
  have h₁ := length_spanTag id none (read s).afterName
  have h₂ := length_afterName_le s
  simp only [next, span, List.length_drop]
  omega

end Tag

/-- Judges the attributes one by one, with the names that are registered already. The register is
asked for a name under the word `hasOwnProperty`, and an attribute of that name takes the answer's
place; the name `__proto__` is never registered. -/
def judgeAttributes (afterName : Text) (seen : List Text) :
    List Attribute.Mark → Except Failure Unit
  | [] => .ok ()
  | a :: more =>
    let rest := afterName.drop a.offset
    if !a.isSpaced then refuse (.gluedAttribute a.name) rest
    else if a.hasEquals && !a.hasValue then refuse (.attributeWithoutValue a.name) rest
    else if !a.hasEquals then refuse (.bareAttribute a.name) rest
    else if !a.name.isName then refuse (.badAttributeName a.name) rest
    else if seen.contains "hasOwnProperty" then .error (.fault .registerLost)
    else if seen.contains a.name then refuse (.repeatedAttribute a.name) rest
    else judgeAttributes afterName (if a.name == "__proto__" then seen else a.name :: seen) more

/-- The tags that are open, the innermost first, and whether the root has been closed. -/
structure Progress where
  opened : List OpenTag := []
  rootClosed : Bool := false

def Progress.judge (p : Progress) (s : Text) (t : Tag) : Except Failure Progress := do
  let whole := less :: s
  if !t.name.isName then
    refuse (if t.name.trim.isEmpty then .blankTagName else .badTagName t.name) t.afterName
  else if t.span.openQuote.isSome then refuse (.openQuote t.name) t.afterName
  else if t.span.inside.endsIn slash then
    judgeAttributes t.afterName [] (Attribute.marks 0 t.span.inside.dropLast)
    return p
  else if t.isClosing then
    if t.span.rest.isEmpty then refuse (.unendedClosingTag t.name) []
    else if !t.span.inside.trim.isEmpty then refuse (.filledClosingTag t.name) whole
    else
      match p.opened with
      | [] => refuse (.unopenedClosingTag t.name) whole
      | o :: opened =>
        if t.name ≠ o.name then refuse (.wrongClosingTag t.name o) whole
        else return ⟨opened, p.rootClosed || opened.isEmpty⟩
  else
    judgeAttributes t.afterName [] (Attribute.marks 0 t.span.inside)
    if p.rootClosed then refuse .secondRoot t.span.rest
    else return { p with opened := ⟨t.name, whole⟩ :: p.opened }

theorem length_skipContent {isAfterRoot : Bool} {s rest : Text}
    (h : skipContent isAfterRoot s = .ok (some rest)) :
    rest.length < s.length := by
  fun_induction skipContent isAfterRoot s with
  | case1 => cases h
  | case2 s _ _ ih =>
    have := ih h
    simp only [List.length_cons, List.length_drop] at *
    omega
  | case3 s _ _ _ ih =>
    have := ih h
    simp only [List.length_cons] at *
    omega
  | case4 =>
    cases h
    simp
  | case5 c s _ t ht ih =>
    have := ih h
    simp only [List.length_cons]
    omega
  | case6 => simp [refuse] at h
  | case7 => simp [refuse] at h
  | case8 c s _ _ _ ih =>
    have := ih h
    simp only [List.length_cons]
    omega

def run (p : Progress) (s : Text) : Except Failure Progress :=
  match p.judge s (Tag.read s) with
  | .error e => .error e
  | .ok p =>
    match h : skipContent p.rootClosed (Tag.read s).next with
    | .error e => .error e
    | .ok none => .ok p
    | .ok (some rest) =>
      have := Nat.lt_of_lt_of_le (length_skipContent h) (Tag.length_next_le s)
      run p rest
termination_by s.length

def Progress.finish (p : Progress) : Except Failure Unit :=
  match p.opened with
  | [] => .ok ()
  | [o] => refuse (.unclosedTag o.name) o.rest
  | opened => refuse (.unclosedTags (opened.reverse.map OpenTag.name)) []

end Check

/-- Checks a document: a prolog, and then tags, each with the content that follows it. -/
def check (s : Text) : Except Check.Failure Unit := do
  match ← Check.skipProlog true s with
  | none => Check.refuse .noTag []
  | some rest => (← Check.run {} rest).finish

end AnalysisProject.Markup
