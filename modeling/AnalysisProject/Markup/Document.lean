import AnalysisProject.Fault
import AnalysisProject.Markup.Doctype
import AnalysisProject.Markup.Tag
import AnalysisProject.Markup.Tree
import AnalysisProject.Text.Line

namespace AnalysisProject.Markup

open CodeUnit

inductive ReadFailure
  | unclosedClosingTag
  | unclosedInstruction
  | unclosedComment
  | unclosedSection
  | reservedName (name : Text)
  | tooDeep
  | doctype (failure : Doctype.Failure)
  | expansion (failure : ExpansionFailure)
  | fault (fault : Fault)
  deriving DecidableEq

namespace ReadFailure

def message : ReadFailure → Text
  | unclosedClosingTag => "Closing Tag is not closed."
  | unclosedInstruction => "Pi Tag is not closed."
  | unclosedComment => "Comment is not closed."
  | unclosedSection => "CDATA is not closed."
  | reservedName name => "Invalid tag name: " ++ name
  | tooDeep => "Maximum nested tags exceeded"
  | doctype failure => failure.message
  | expansion (.tooMany count) =>
    Text.join ["Entity expansion limit exceeded: ", Text.decimal count, " > ",
      Text.decimal Expansion.maxCount]
  | expansion (.tooLong growth) =>
    Text.join ["Total expanded content size exceeded: ", Text.decimal growth.toNat, " > ",
      Text.decimal Expansion.maxGrowth.toNat]
  | fault f => f.message

end ReadFailure

/-- An element that is open, with the children it has so far, the last one first. -/
structure Frame where
  name : Text
  attributes : Attributes
  children : List Node

namespace Frame

def document : Frame := ⟨"!xml", [], []⟩

def push (node : Node) (f : Frame) : Frame := { f with children := node :: f.children }

/-- The finished element. The name `__proto__` is kept for other purposes, and an element of that
name gets another. -/
def close (f : Frame) : Node :=
  .element (if f.name == "__proto__" then "#__proto__" else f.name) f.attributes f.children.reverse

end Frame

/-- Where reading stands: in an element with its ancestors, the nearest first, or past the end of
the document, which has its children already. -/
inductive Cursor
  | within (frame : Frame) (ancestors : List Frame)
  | past (children : List Node)

namespace Cursor

def start : Cursor := within .document []

def leave : Cursor → Cursor
  | within frame [] => past frame.children.reverse
  | within frame (parent :: ancestors) => within (parent.push frame.close) ancestors
  | past children => past children

def finish (frame : Frame) : List Frame → List Node
  | [] => frame.children.reverse
  | parent :: ancestors => finish (parent.push frame.close) ancestors

def children : Cursor → List Node
  | within frame ancestors => finish frame ancestors
  | past children => children

def maxDepth : Nat := 100

end Cursor

/-- The state of reading: the cursor, the text since the last markup, the declared entities and what
has been put in for references. -/
structure Reading where
  cursor : Cursor := .start
  pending : Text := []
  entities : Entities := []
  expansion : Expansion := {}

namespace Reading

def decode (r : Reading) (s : Text) : Except ReadFailure (Reading × Text) :=
  match r.expansion.decode r.entities s with
  | .ok (expansion, t) => .ok ({ r with expansion }, t)
  | .error e => .error (.expansion e)

def flush (r : Reading) : Except ReadFailure Reading :=
  if r.pending.isEmpty then .ok r
  else
    match r.cursor with
    | .past _ => .error (.fault .noParentForText)
    | .within frame ancestors => do
      let (r, s) ← r.decode r.pending
      let frame := if s.isEmpty then frame else frame.push (.text s)
      return { r with cursor := .within frame ancestors, pending := [] }

def closeTag (r : Reading) : Except ReadFailure Reading := do
  let r ← match r.cursor with
    | .within _ _ => r.flush
    | .past _ => pure r
  return { r with cursor := r.cursor.leave, pending := [] }

/-- A character section is a text as it stands, even an empty one. -/
def addSection (r : Reading) (s : Text) : Except ReadFailure Reading := do
  let r ← r.flush
  match r.cursor with
  | .past _ => throw (.fault .noParentForSection)
  | .within frame ancestors => return { r with cursor := .within (frame.push (.text s)) ancestors }

def decodeAttributes (r : Reading) (attributes : Attributes) :
    List (Text × Text) → Except ReadFailure (Reading × Attributes)
  | [] => .ok (r, attributes)
  | (name, value) :: more => do
    let (r, value) ← r.decode value
    decodeAttributes r (attributes.set name value) more

/-- Text before a tag belongs to the current element, unless that one is, by its name, the document.
-/
def flushBeforeTag (r : Reading) : Except ReadFailure Reading :=
  match r.cursor with
  | .within frame _ => if frame.name == Frame.document.name then .ok r else r.flush
  | .past _ => .ok r

def addElement (r : Reading) (name : Text) (assignments : List (Text × Text)) :
    Except ReadFailure Reading := do
  let r ← r.flushBeforeTag
  let (r, attributes) ← r.decodeAttributes [] assignments
  match r.cursor with
  | .past _ => throw (.fault .noParentForElement)
  | .within frame ancestors =>
    return { r with
      cursor := .within (frame.push (Frame.close ⟨name, attributes, []⟩)) ancestors, pending := [] }

def openElement (r : Reading) (name : Text) (assignments : List (Text × Text)) :
    Except ReadFailure Reading := do
  let r ← r.flushBeforeTag
  match r.cursor with
  | .past _ =>
    let _ ← r.decodeAttributes [] assignments
    throw (.fault .noParentForElement)
  | .within frame ancestors =>
    if Cursor.maxDepth < ancestors.length then throw .tooDeep
    let (r, attributes) ← r.decodeAttributes [] assignments
    return { r with cursor := .within ⟨name, attributes, []⟩ (frame :: ancestors), pending := [] }

/-- The name in a tag and the text after it, which is the whole tag where no white space divides the
two. -/
def splitName (inside : Text) : Text × Text :=
  if inside.any CodeUnit.isBlank then
    (inside.takeWhile (!CodeUnit.isBlank ·),
      Text.trimStart (inside.dropWhile (!CodeUnit.isBlank ·)))
  else (inside, inside)

/-- Takes in a tag that does not begin with a slash. Its name may not be the one that stands for a
text; a slash behind the name still counts as part of it here. -/
def takeTag (r : Reading) (inside : Text) : Except ReadFailure Reading :=
  let (name, extra) := splitName inside
  if name == Node.textName then .error (.reservedName name)
  else if extra.endsIn slash then
    if name.endsIn slash then r.addElement name.dropLast []
    else r.addElement name (if name == extra.dropLast then []
      else Attribute.assignments extra.dropLast)
  else r.openElement name (if name == extra then [] else Attribute.assignments extra)

def blankTab (c : CodeUnit) : CodeUnit := if c = tab then space else c

def tag? (s : Text) : Option (Text × Text) :=
  let span := spanTag blankTab none s
  if span.rest.isEmpty then none else some (span.inside, span.rest.drop 1)

/-- What follows an instruction, whose end is looked for outside quotes. -/
def skipInstruction? : Option CodeUnit → Text → Option Text
  | _, [] => none
  | some q, c :: s => skipInstruction? (if c = q then none else some q) s
  | none, c :: s =>
    if Text.startsWith "?>" (c :: s) then some (s.drop 1)
    else skipInstruction? (if c.isQuote then some c else none) s

def sectionStart : Nat := 7

/-- The text of a section and what follows it, from after the `<!` on. Where the section ends before
its text begins, the text is what stands between these two places. -/
def section? (s : Text) : Option (Text × Text) :=
  (Text.splitFirst? "]]>" s).map fun (before, after) ↦
    (if sectionStart ≤ before.length then before.drop sectionStart
      else (s.take sectionStart).drop before.length, after)

theorem length_tag? {s inside rest : Text} (h : tag? s = some (inside, rest)) :
    rest.length ≤ s.length := by
  have := length_spanTag blankTab none s
  simp only [tag?] at h
  split at h
  · contradiction
  · cases h
    rw [List.length_drop]
    omega

theorem length_skipInstruction? {q : Option CodeUnit} {s rest : Text}
    (h : skipInstruction? q s = some rest) :
    rest.length ≤ s.length := by
  fun_induction skipInstruction? q s with
  | case1 => cases h
  | case2 q c s ih =>
    have := ih h
    simp only [List.length_cons]
    omega
  | case3 c s _ =>
    cases h
    simp only [List.length_cons, List.length_drop]
    omega
  | case4 c s _ ih =>
    have := ih h
    simp only [List.length_cons]
    omega

theorem length_section? {s inside rest : Text} (h : section? s = some (inside, rest)) :
    rest.length ≤ s.length := by
  simp only [section?, Option.map_eq_some_iff, Prod.exists, Prod.mk.injEq] at h
  obtain ⟨before, after, hs, -, rfl⟩ := h
  have := Text.length_splitFirst? hs
  omega

def takeMarkup (r : Reading) (s : Text) : Except ReadFailure (Reading × Text) :=
  if Text.startsWith "/" s then
    match Text.after? ">" s with
    | none => .error .unclosedClosingTag
    | some rest => r.closeTag.map fun r ↦ (r, rest)
  else if Text.startsWith "?" s then
    match skipInstruction? none s with
    | none => .error .unclosedInstruction
    | some rest => r.flush.map fun r ↦ (r, rest)
  else if Text.startsWith "!--" s then
    match Text.after? "-->" (s.drop 3) with
    | none => .error .unclosedComment
    | some rest => .ok (r, rest)
  else if Text.startsWith "!D" s then
    match Doctype.read (s.drop 2) with
    | .error e => .error (.doctype e)
    | .ok (entities, rest) => .ok ({ r with entities }, rest)
  else if Text.startsWith "![" s then
    match section? (s.drop 1) with
    | none => .error .unclosedSection
    | some (inside, rest) => (r.addSection inside).map fun r ↦ (r, rest)
  else
    match tag? s with
    | none => .error (.fault .noTag)
    | some (inside, rest) => (r.takeTag inside).map fun r ↦ (r, rest)

theorem length_takeMarkup {r r' : Reading} {s rest : Text} (h : r.takeMarkup s = .ok (r', rest)) :
    rest.length ≤ s.length := by
  have of_map {e : Except ReadFailure Reading} {t : Text}
      (h : (e.map fun r ↦ (r, t)) = .ok (r', rest)) :
      t = rest := by
    cases e with
    | error => cases h
    | ok r => simpa [Except.map] using (Prod.mk.inj (Except.ok.inj h)).2
  rw [takeMarkup] at h
  split at h
  · split at h
    · contradiction
    · next ha => exact of_map h ▸ Text.length_after? ha
  · split at h
    · split at h
      · contradiction
      · next ha => exact of_map h ▸ length_skipInstruction? ha
    · split at h
      · split at h
        · contradiction
        · next ha =>
          cases h
          have := Text.length_after? ha
          rw [List.length_drop] at this
          omega
      · split at h
        · split at h
          · contradiction
          · next ha =>
            cases h
            have := Doctype.length_read ha
            rw [List.length_drop] at this
            omega
        · split at h
          · split at h
            · contradiction
            · next ha =>
              have := length_section? ha
              rw [List.length_drop] at this
              exact of_map h ▸ Nat.le_trans this (Nat.sub_le _ _)
          · split at h
            · contradiction
            · next ha => exact of_map h ▸ length_tag? ha

def run (r : Reading) (s : Text) : Except ReadFailure Reading :=
  match s with
  | [] => .ok r
  | c :: s =>
    if c = less then
      match h : r.takeMarkup s with
      | .error e => .error e
      | .ok (r, rest) =>
        have := length_takeMarkup h
        run r rest
    else
      have := Text.length_dropWhile_le (· != less) s
      run { r with pending := r.pending ++ c :: s.takeWhile (· != less) } (s.dropWhile (· != less))
termination_by s.length

end Reading

def readDocument (s : Text) : Except ReadFailure (List Node) :=
  (Reading.run {} s.unifyLines).map fun r ↦ r.cursor.children

end AnalysisProject.Markup
