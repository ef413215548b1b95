import AnalysisProject.Proofs.Project.Entry

namespace AnalysisProject

open CodeUnit Markup Layout

namespace Printing

def spellUnit (c : CodeUnit) : Text :=
  if c = ampersand then "&amp;"
  else if c = less then "&lt;"
  else if c = greater then "&gt;"
  else if c = apostrophe then "&apos;"
  else if c = quote then "&quot;"
  else [c]

def spellText (s : Text) : Text := s.flatMap spellUnit

def attributeText (key value : Text) : Text := " " ++ key ++ "=\"" ++ spellText value ++ "\""

def openText (name : Text) (attributes : List (Text × Text)) : Text :=
  "<" ++ name ++ attributes.flatMap fun (key, value) ↦ attributeText key value

def closeText (name : Text) : Text := "</" ++ name ++ ">"

structure Row where
  depth : Nat
  text : Text

def lineBreak (unit : Text) (depth : Nat) : Text :=
  if unit.isEmpty then [] else lineFeed :: (List.replicate depth unit).flatten

/-- The rows, each after the first on a line of its own. -/
def layOut (unit : Text) : List Row → Text
  | [] => []
  | first :: rows => first.text ++ rows.flatMap fun row ↦ lineBreak unit row.depth ++ row.text

end Printing

open Printing

namespace Layout

def Leaf.printed (l : Leaf) : Text :=
  openText l.name l.attributes ++
    if l.content.isEmpty then ("/>" : Text) else ">" ++ spellText l.content ++ closeText l.name

def Entry.rows : Entry → List Row
  | value l => [⟨1, l.printed⟩]
  | container name items =>
    ⟨1, openText name [] ++ ">"⟩ :: (items.map (⟨2, ·.printed⟩) ++ [⟨1, closeText name⟩])

end Layout

def Project.print (unit : Text) (p : Project) : Text :=
  let rows := (Section.listed.filter p.fills).flatMap fun s ↦ (p.entry s).rows
  byteOrderMark :: ("<?xml version=\"1.0\" encoding=\"UTF-8\"?>\n" ++
    layOut unit (⟨0, "<project version=\"1\">"⟩ :: (rows ++ [⟨0, "</project>"⟩])) ++ "\n")

namespace Printing

theorem spelling_eq_spellUnit (c : CodeUnit) : Reference.spelling [] c = spellUnit c := by
  by_cases h : c ∈ Reference.written.map Prod.fst
  · have hall : ∀ d ∈ Reference.written.map Prod.fst, Reference.spelling [] d = spellUnit d := by
      decide
    exact hall c h
  · have hl : Reference.written.lookup c = none := by
      rw [List.lookup_eq_none_iff]
      intro w hw
      rw [bne_iff_ne]
      rintro rfl
      exact h (List.mem_map_of_mem hw)
    simp only [Reference.written, List.map_cons, List.map_nil, List.mem_cons, List.not_mem_nil,
      or_false, not_or] at h
    obtain ⟨hamp, hgreater, hless, hapostrophe, hquote⟩ := h
    rw [Reference.spelling_eq_self hl, spellUnit, if_neg hamp, if_neg hless, if_neg hgreater,
      if_neg hapostrophe, if_neg hquote]

theorem escape_eq_spellText (s : Text) : Reference.escape s = spellText s := by
  rw [Reference.escape_eq_flatMap, spellText]
  exact congrArg (List.flatMap · s) (funext spelling_eq_spellUnit)

theorem inside_tag (name : Text) (attributes : Attributes) : (attributes.tag name).inside =
    attributes.flatMap fun (key, value) ↦ attributeText key value := by
  induction attributes with
  | nil => rfl
  | cons a attributes ih =>
    obtain ⟨key, value⟩ := a
    rw [Attributes.tag_inside_cons, ih, List.flatMap_cons, escape_eq_spellText]
    simp [attributeText]
    rfl

variable (name : Text) (attributes : Attributes)

theorem emptyText_tag : (attributes.tag name).emptyText = openText name attributes ++ "/>" := by
  rw [WrittenTag.emptyText, inside_tag]
  simp [openText, Attributes.tag]
  rfl

theorem openText_tag : (attributes.tag name).openText = openText name attributes ++ ">" := by
  rw [WrittenTag.openText, inside_tag]
  simp [openText, Attributes.tag]
  rfl

theorem closeText_eq : WrittenTag.closeText name [] = closeText name := by
  simp [WrittenTag.closeText, closeText]
  rfl

def Row.place (gap : Nat → Text) (row : Row) : Text := gap row.depth ++ row.text

end Printing

variable (gap : Nat → Text)

theorem Layout.Leaf.spell_node (l : Leaf) (depth : Nat) : l.node.spell gap depth = l.printed := by
  rw [node, leaf, printed]
  cases hs : l.content.isEmpty with
  | true => rw [if_pos rfl, if_pos rfl, Node.spell_empty, emptyText_tag]
  | false =>
    have hne : l.content ≠ [] := List.isEmpty_eq_false_iff.mp hs
    rw [if_neg Bool.false_ne_true, if_neg Bool.false_ne_true, Node.spell_text hne, openText_tag,
      closeText_eq, escape_eq_spellText]
    simp

theorem Layout.Entry.spell_node {e : Entry} (h : e.node.IsSound 1) (hf : e.IsFilled) :
    gap 1 ++ e.node.spell gap 1 = e.rows.flatMap (Row.place gap) := by
  cases e with
  | value l => rw [node, l.spell_node, rows, List.flatMap_singleton, Row.place]
  | container name items =>
    have hitems : (items.map Leaf.node).flatMap (fun node ↦ gap 2 ++ node.spell gap 2) =
        (items.map (⟨2, ·.printed⟩)).flatMap (Row.place gap) := by
      rw [List.flatMap_map, List.flatMap_map]
      exact congrArg (List.flatMap · items) (funext fun l ↦ by rw [l.spell_node, Row.place])
    rw [node, Node.spell_container (List.map_eq_nil_iff.not.mpr hf) (isSound_items h hf), hitems,
      openText_tag, closeText_eq, rows, List.flatMap_cons, List.flatMap_append,
      List.flatMap_singleton]
    simp [Row.place]

namespace Project

variable (p : Project)

theorem spell_sectionNodes (sections : List Section) :
    (sections.flatMap p.sectionNodes).flatMap (fun node ↦ gap 1 ++ node.spell gap 1) =
      ((sections.filter p.fills).flatMap fun s ↦ (p.entry s).rows).flatMap (Row.place gap) := by
  induction sections with
  | nil => rfl
  | cons s sections ih =>
    rw [List.flatMap_cons, List.flatMap_append, p.sectionNodes_eq s, ih]
    cases h : p.fills s with
    | true =>
      rw [if_pos rfl, List.filter_cons_of_pos h, List.flatMap_singleton, List.flatMap_cons,
        List.flatMap_append, Entry.spell_node gap (isSound_entry h) (isFilled_entry h)]
    | false =>
      rw [if_neg Bool.false_ne_true, List.filter_cons_of_neg (ne_true_of_eq_false h)]
      rfl

/-- Writing a project through its tree comes to printing its sections row by row, for every unit of
indentation and whatever the texts contain. -/
theorem render_eq_print (unit : Text) : p.render unit = p.print unit := by
  have hgap : Node.gapOf unit = lineBreak unit := funext fun _ ↦ rfl
  have hroot := @Node.spell_container (lineBreak unit) 0 _ rootElement [(versionAttribute, version)]
    _ p.nodes_ne_nil p.nodes_isSound
  have hlisted : Section.order = Section.listed := rfl
  have hopen : (Attributes.tag [(versionAttribute, version)] rootElement).openText =
      "<project version=\"1\">" := rfl
  have hclose : WrittenTag.closeText rootElement [] = "</project>" := rfl
  have hplace : (fun row : Row ↦ lineBreak unit row.depth ++ row.text) =
      Row.place (lineBreak unit) := rfl
  have hdeclaration : ("<?xml version=\"1.0\" encoding=\"UTF-8\"?>\n" : Text) =
      declaration ++ [lineFeed] := rfl
  have hfeed : ("\n" : Text) = [lineFeed] := rfl
  rw [render_eq_document, hgap, document, toNode, hroot, p.spell_sectionNodes, hopen, hclose, print,
    layOut, hplace, List.flatMap_append, List.flatMap_singleton, hdeclaration, hlisted, hfeed]
  simp [Row.place]

/-- White space and what looks like a tag stay as they are in a text. -/
example : Project.render "\t" { tags := [" </tag>\n"] } =
    byteOrderMark :: Text.join [
      "<?xml version=\"1.0\" encoding=\"UTF-8\"?>\n<project version=\"1\">",
      "\n\t<analyze-all-vs-configs>true</analyze-all-vs-configs>\n\t<tags>",
      "\n\t\t<tag> &lt;/tag&gt;\n</tag>\n\t</tags>\n</project>\n"] := by decide +kernel

end Project
end AnalysisProject
