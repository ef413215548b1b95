import AnalysisProject.Markup.Name
import AnalysisProject.Markup.Reference
import AnalysisProject.Text.Blank
import AnalysisProject.Text.Capital

namespace AnalysisProject.Markup

open CodeUnit

namespace Doctype

inductive Literal
  | entity
  | publicIdentifier
  | systemIdentifier
  deriving DecidableEq

inductive Failure
  | noDoctype
  | misplaced
  | unclosed
  | badEntityName (name : Text)
  | badElementName (name : Text)
  | externalEntity
  | parameterEntity
  | longEntity (name : Text) (length : Nat)
  | unterminatedModel
  | badElementContent (found : Option CodeUnit)
  | badNotationKind (found : Text)
  | noSystemIdentifier
  | unquoted (found : Option CodeUnit)
  | unterminated (literal : Literal)
  deriving DecidableEq

def maxEntityLength : Nat := 10000

namespace Literal

def label : Literal → Text
  | entity => "entity"
  | publicIdentifier => "publicIdentifier"
  | systemIdentifier => "systemIdentifier"

end Literal

namespace Failure

def describe (found : Option CodeUnit) : Text := (found.map fun c ↦ [c]).getD "undefined"

def message : Failure → Text
  | noDoctype => "Invalid Tag instead of DOCTYPE"
  | misplaced => "Invalid DOCTYPE"
  | unclosed => "Unclosed DOCTYPE"
  | badEntityName name => Text.join ["Invalid entity name ", name]
  | badElementName name => Text.join ["Invalid element name: \"", name, "\""]
  | externalEntity => "External entities are not supported"
  | parameterEntity => "Parameter entities are not supported"
  | longEntity name length =>
    Text.join ["Entity \"", name, "\" size (", Text.decimal length,
      ") exceeds maximum allowed size (", Text.decimal maxEntityLength, ")"]
  | unterminatedModel => "Unterminated content model"
  | badElementContent found =>
    Text.join ["Invalid Element Expression, found \"", describe found, "\""]
  | badNotationKind found => Text.join ["Expected SYSTEM or PUBLIC, found \"", found, "\""]
  | noSystemIdentifier => "Missing mandatory system identifier for SYSTEM notation"
  | unquoted found => Text.join ["Expected quoted string, found \"", describe found, "\""]
  | unterminated literal => Text.join ["Unterminated ", literal.label, " value"]

end Failure

def readLiteral (literal : Literal) : Text → Except Failure (Text × Text)
  | [] => .error (.unquoted none)
  | c :: s =>
    if c.isQuote then
      match Text.splitFirst? [c] s with
      | some found => .ok found
      | none => .error (.unterminated literal)
    else .error (.unquoted (some c))

def readName (isEnd : CodeUnit → Bool) (s : Text) : Text × Text :=
  (s.trimStart.takeWhile (!isEnd ·), Text.trimStart (s.trimStart.dropWhile (!isEnd ·)))

def readEntity (s : Text) : Except Failure (Text × Text × Text) :=
  let (name, s) := readName (fun c ↦ c.isBlank || c.isQuote) s
  if !name.isName then .error (.badEntityName name)
  else if Text.capitals (s.take 6) == "SYSTEM" then .error .externalEntity
  else if Text.startsWith "%" s then .error .parameterEntity
  else
    match readLiteral .entity s with
    | .error e => .error e
    | .ok (value, rest) =>
      if maxEntityLength < value.length then .error (.longEntity name value.length)
      else .ok (name, value, rest)

def readElement (s : Text) : Except Failure Text :=
  let (name, s) := readName CodeUnit.isBlank s
  if !name.isName then .error (.badElementName name)
  else if Text.startsWith "EMPTY" s then .ok (s.drop 5)
  else if Text.startsWith "ANY" s then .ok (s.drop 3)
  else if Text.startsWith "(" s then
    match Text.after? ")" s with
    | some rest => .ok rest
    | none => .error .unterminatedModel
  else .error (.badElementContent s.head?)

def readPublic (s : Text) : Except Failure Text :=
  match readLiteral .publicIdentifier s.trimStart with
  | .error e => .error e
  | .ok (_, rest) =>
    if rest.trimStart.head?.any CodeUnit.isQuote then
      (readLiteral .systemIdentifier rest.trimStart).map Prod.snd
    else .ok rest.trimStart

def readSystem (s : Text) : Except Failure Text :=
  match readLiteral .systemIdentifier s.trimStart with
  | .error e => .error e
  | .ok (identifier, rest) => if identifier.isEmpty then .error .noSystemIdentifier else .ok rest

def readNotation (s : Text) : Except Failure Text :=
  let (name, s) := readName CodeUnit.isBlank s
  let kind := Text.capitals (s.take 6)
  if !name.isName then .error (.badEntityName name)
  else if kind == "SYSTEM" then readSystem (s.drop 6)
  else if kind == "PUBLIC" then readPublic (s.drop 6)
  else .error (.badNotationKind kind)

theorem length_readLiteral {literal : Literal} {s value rest : Text}
    (h : readLiteral literal s = .ok (value, rest)) : rest.length ≤ s.length := by
  rw [readLiteral.eq_def] at h
  split at h
  · contradiction
  · split at h
    · split at h
      · next found hs =>
        cases h
        have := Text.length_splitFirst? hs
        simp only [List.length_cons]
        omega
      · contradiction
    · contradiction

theorem length_readName_le (isEnd : CodeUnit → Bool) (s : Text) :
    (readName isEnd s).2.length ≤ s.length :=
  Nat.le_trans (Text.length_trimStart_le _)
    (Nat.le_trans (Text.length_dropWhile_le _ _) (Text.length_trimStart_le s))

theorem length_readEntity {s name value rest : Text} (h : readEntity s = .ok (name, value, rest)) :
    rest.length ≤ s.length := by
  have hs := length_readName_le (fun c ↦ c.isBlank || c.isQuote) s
  simp only [readEntity] at h
  split at h
  · contradiction
  · split at h
    · contradiction
    · split at h
      · contradiction
      · split at h
        · contradiction
        · next hl =>
          split at h
          · contradiction
          · cases h
            exact Nat.le_trans (length_readLiteral hl) hs

theorem length_readElement {s rest : Text} (h : readElement s = .ok rest) :
    rest.length ≤ s.length := by
  have hs := length_readName_le CodeUnit.isBlank s
  simp only [readElement] at h
  split at h
  · contradiction
  · split at h
    · cases h
      rw [List.length_drop]
      omega
    · split at h
      · cases h
        rw [List.length_drop]
        omega
      · split at h
        · split at h
          · next ha =>
            cases h
            exact Nat.le_trans (Text.length_after? ha) hs
          · contradiction
        · contradiction

theorem length_readPublic {s rest : Text} (h : readPublic s = .ok rest) :
    rest.length ≤ s.length := by
  rw [readPublic] at h
  split at h
  · contradiction
  · next t hl =>
    have hs := Nat.le_trans (length_readLiteral hl) (Text.length_trimStart_le s)
    have ht := Text.length_trimStart_le t
    split at h
    · cases hq : readLiteral .systemIdentifier t.trimStart with
      | error e => simp [hq, Except.map] at h
      | ok p =>
        obtain ⟨value, rest⟩ := p
        have := length_readLiteral hq
        simp only [hq, Except.map, Except.ok.injEq] at h
        subst h
        omega
    · cases h
      omega

theorem length_readSystem {s rest : Text} (h : readSystem s = .ok rest) :
    rest.length ≤ s.length := by
  rw [readSystem] at h
  split at h
  · contradiction
  · next hl =>
    split at h
    · contradiction
    · cases h
      exact Nat.le_trans (length_readLiteral hl) (Text.length_trimStart_le s)

theorem length_readNotation {s rest : Text} (h : readNotation s = .ok rest) :
    rest.length ≤ s.length := by
  have hs := length_readName_le CodeUnit.isBlank s
  simp only [readNotation] at h
  split at h
  · contradiction
  · split at h
    · have := length_readSystem h
      rw [List.length_drop] at this
      omega
    · split at h
      · have := length_readPublic h
        rw [List.length_drop] at this
        omega
      · contradiction

/-- Reads on in a declaration: `depth` angle brackets are open, and `inBody` says that a square
bracket has come. The declared entities and what follows the declaration. -/
def scan (depth : Nat) (inBody : Bool) (entities : Entities) :
    Text → Except Failure (Entities × Text)
  | [] => .error .unclosed
  | c :: s =>
    if c = less then
      if inBody && Text.startsWith "!ENTITY" s then
        match h : readEntity (s.drop 7) with
        | .error e => .error e
        | .ok (name, value, rest) =>
          have := length_readEntity h
          scan (depth + 1) inBody (if value.contains ampersand then entities
            else entities.declare name value) rest
      else if inBody && Text.startsWith "!ELEMENT" s then
        match h : readElement (s.drop 8) with
        | .error e => .error e
        | .ok rest =>
          have := length_readElement h
          scan (depth + 1) inBody entities rest
      else if inBody && Text.startsWith "!ATTLIST" s then
        scan (depth + 1) inBody entities (s.drop 8)
      else if inBody && Text.startsWith "!NOTATION" s then
        match h : readNotation (s.drop 9) with
        | .error e => .error e
        | .ok rest =>
          have := length_readNotation h
          scan (depth + 1) inBody entities rest
      else if Text.startsWith "!--" s then
        match h : Text.splitFirst? "-->" (s.drop 1) with
        | none => .error .unclosed
        | some (comment, rest) =>
          have := Text.length_splitFirst? h
          scan depth (inBody || comment.contains bracket) entities rest
      else .error .misplaced
    else if c = greater then if depth ≤ 1 then .ok (entities, s)
    else scan (depth - 1) inBody entities s
    else scan depth (inBody || c == bracket) entities s
termination_by s => s.length
decreasing_by
  all_goals
    simp_all only [List.length_cons, List.length_drop]
    omega

theorem length_scan {depth : Nat} {inBody : Bool} {entities declared : Entities} {s rest : Text}
    (h : scan depth inBody entities s = .ok (declared, rest)) : rest.length < s.length := by
  fun_induction scan depth inBody entities s with
  | case1 => cases h
  | case2 => cases h
  | case3 depth inBody entities s _ name value t hr hs ih =>
    have := ih h
    have := length_readEntity hr
    simp only [List.length_cons, List.length_drop] at *
    omega
  | case4 => cases h
  | case5 depth inBody entities s _ _ t hr hs ih =>
    have := ih h
    have := length_readElement hr
    simp only [List.length_cons, List.length_drop] at *
    omega
  | case6 depth inBody entities s _ _ _ ih =>
    have := ih h
    simp only [List.length_cons, List.length_drop] at *
    omega
  | case7 => cases h
  | case8 depth inBody entities s _ _ _ _ t hr hs ih =>
    have := ih h
    have := length_readNotation hr
    simp only [List.length_cons, List.length_drop] at *
    omega
  | case9 => cases h
  | case10 depth inBody entities s _ _ _ _ _ comment t hr hs ih =>
    have := ih h
    have := Text.length_splitFirst? hr
    simp only [List.length_cons, List.length_drop] at *
    omega
  | case11 => cases h
  | case12 =>
    cases h
    simp
  | case13 depth inBody entities s _ _ ih =>
    have := ih h
    simp only [List.length_cons]
    omega
  | case14 depth inBody entities c s _ _ ih =>
    have := ih h
    simp only [List.length_cons]
    omega

def read (s : Text) : Except Failure (Entities × Text) :=
  if Text.startsWith "OCTYPE" s then scan 1 false [] (s.drop 6) else .error .noDoctype

theorem length_read {s rest : Text} {entities : Entities} (h : read s = .ok (entities, rest)) :
    rest.length ≤ s.length := by
  rw [read] at h
  split at h
  · have := length_scan h
    rw [List.length_drop] at this
    omega
  · contradiction

end Doctype
end AnalysisProject.Markup
