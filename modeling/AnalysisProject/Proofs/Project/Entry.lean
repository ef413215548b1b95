import AnalysisProject.Proofs.Project.Adoption

namespace AnalysisProject

open CodeUnit Markup Layout

namespace Layout

structure Leaf where
  name : Text
  attributes : List (Text × Text) := []
  content : Text := []

namespace Leaf

def named (name value : Text) : Leaf where
  name := name
  attributes := [("name", value)]

def plain (name content : Text) : Leaf where
  name := name
  content := content

def node (l : Leaf) : Node := leaf l.name l.attributes l.content

end Leaf

/-- What stands in a section: a value, or a container with its items. -/
inductive Entry
  | value (l : Leaf)
  | container (name : Text) (items : List Leaf)

namespace Entry

def name : Entry → Text
  | value l => l.name
  | container name _ => name

def node : Entry → Node
  | value l => l.node
  | container name items => .element name [] (items.map Leaf.node)

def IsFilled : Entry → Prop
  | value _ => True
  | container _ items => items ≠ []

theorem isSound_items {name : Text} {items : List Leaf}
    (h : (container name items).node.IsSound 1) (hne : items ≠ []) :
    ∀ node ∈ items.map Leaf.node, node.IsSound 0 := by
  obtain ⟨item, more, rfl⟩ := List.exists_cons_of_ne_nil hne
  cases h with
  | container _ _ hitems => exact hitems

end Entry

def Section.listed : List Section :=
  [.scalar .rootPath, .scalar .buildDir, .scalar .platform, .scalar .importProject,
    .scalar .analyzeAllVsConfigs, .list .includeDirs, .list .defines, .list .undefines,
    .list .checkPaths, .list .excludedPaths, .list .libraries, .suppressions, .list .addons, .tools,
    .list .tags]

theorem Section.mem_listed (s : Section) : s ∈ listed := by
  cases s with
  | scalar s => cases s <;> decide
  | list field => cases field <;> decide
  | suppressions | tools => decide

/-- The writer finds the elements of every list by the name of its field. -/
theorem ListEntry.ofFieldName?_eq_some_iff {name : Text} {e : ListEntry} :
    ofFieldName? name = some e ↔ ∃ field : ListField, field.name = name ∧ canonical field = e := by
  constructor
  · intro h
    have hcanonical : ∀ e ∈ all, e.legacy = false → canonical e.field = e := by decide
    have he := List.find?_some h
    simp only [Bool.and_eq_true, beq_iff_eq, Bool.not_eq_true'] at he
    exact ⟨e.field, he.1, hcanonical e (List.mem_of_find?_eq_some h) he.2⟩
  · rintro ⟨field, rfl, rfl⟩
    cases field <;> decide

end Layout

/-- The digits of a line; a number that no line has is written without any. -/
def LineNumber.digits : Number → Text
  | .integer n => if 1 ≤ n ∧ n ≤ 2147483647 then toString n.toNat else []
  | _ => []

def Suppression.leaf (s : Suppression) : Leaf where
  name := "suppression"
  attributes :=
    let all : List (Text × Text) :=
      [("fileName", s.fileName), ("lineNumber", LineNumber.digits s.lineNumber),
        ("symbolName", s.symbolName)]
    all.filter fun a ↦ !a.2.isEmpty
  content := s.errorId

namespace Project

def toolNames (p : Project) : List Text :=
  let tools : List (Text × Bool) :=
    [("clang-analyzer", p.clangAnalyzer), ("clang-tidy", p.clangTidy)]
  (tools.filter Prod.snd).map Prod.fst

def entry (p : Project) : Section → Entry
  | .scalar .rootPath => .value (.named "root" p.rootPath)
  | .scalar .buildDir => .value (.plain "builddir" p.buildDir)
  | .scalar .platform => .value (.plain "platform" p.platform)
  | .scalar .importProject => .value (.plain "importproject" p.importProject)
  | .scalar .analyzeAllVsConfigs =>
    .value (.plain "analyze-all-vs-configs" (if p.analyzeAllVsConfigs then "true" else "false"))
  | .list .includeDirs => .container "includedir" (p.includeDirs.map (.named "dir"))
  | .list .defines => .container "defines" (p.defines.map (.named "define"))
  | .list .undefines => .container "undefines" (p.undefines.map (.plain "undefine"))
  | .list .checkPaths => .container "paths" (p.checkPaths.map (.named "dir"))
  | .list .excludedPaths => .container "exclude" (p.excludedPaths.map (.named "path"))
  | .list .libraries => .container "libraries" (p.libraries.map (.plain "library"))
  | .list .addons => .container "addons" (p.addons.map (.plain "addon"))
  | .list .tags => .container "tags" (p.tags.map (.plain "tag"))
  | .suppressions => .container "suppressions" (p.suppressions.map Suppression.leaf)
  | .tools => .container "tools" (p.toolNames.map (.plain "tool"))

def fills (p : Project) : Section → Bool
  | .scalar .rootPath => !p.rootPath.isEmpty
  | .scalar .buildDir => !p.buildDir.isEmpty
  | .scalar .platform => !p.platform.isEmpty
  | .scalar .importProject => !p.importProject.isEmpty
  | .scalar .analyzeAllVsConfigs => true
  | .list .includeDirs => !p.includeDirs.isEmpty
  | .list .defines => !p.defines.isEmpty
  | .list .undefines => !p.undefines.isEmpty
  | .list .checkPaths => !p.checkPaths.isEmpty
  | .list .excludedPaths => !p.excludedPaths.isEmpty
  | .list .libraries => !p.libraries.isEmpty
  | .list .addons => !p.addons.isEmpty
  | .list .tags => !p.tags.isEmpty
  | .suppressions => !p.suppressions.isEmpty
  | .tools => p.clangAnalyzer || p.clangTidy

end Project

theorem Text.ofString_toString (n : Nat) : ofString (ToString.toString n) = decimal n := by
  rw [ofString, decimal, Nat.toString_eq_repr, Nat.repr, String.toList_ofList]

namespace LineNumber

theorem digits_of_isValid {n : Number} (h : isValid n = true) :
    digits n = n.text ∧ digits n ≠ [] := by
  obtain ⟨k, rfl, ht⟩ := text_of_isValid h
  have hdigits : digits (.integer k) = Text.decimal k := by
    have hline : 1 ≤ (k : Int) ∧ (k : Int) ≤ 2147483647 := isValid_iff.mp h
    rw [digits, if_pos hline, Int.toNat_natCast, Text.ofString_toString]
  rw [hdigits, ht]
  exact ⟨rfl, Text.decimal_ne_nil k⟩

theorem digits_of_not_isValid {n : Number} (h : ¬ isValid n = true) : digits n = [] := by
  cases n with
  | integer n => exact if_neg (mt isValid_iff.mpr h)
  | _ => rfl

end LineNumber

theorem Suppression.attributes_eq (s : Suppression) : s.attributes = s.leaf.attributes := by
  have hline : (if LineNumber.isValid s.lineNumber then
        [(Suppressions.lineNumberAttribute, s.lineNumber.text)] else []) =
      [(("lineNumber" : Text), LineNumber.digits s.lineNumber)].filter fun a ↦ !a.2.isEmpty := by
    by_cases h : LineNumber.isValid s.lineNumber = true
    · obtain ⟨htext, hne⟩ := LineNumber.digits_of_isValid h
      rw [if_pos h, htext, List.filter_cons_of_pos (by simpa [htext] using hne)]
      rfl
    · rw [if_neg h, LineNumber.digits_of_not_isValid h]
      rfl
  have hattribute (key value : Text) : (if value.isEmpty then [] else [(key, value)]) =
      [(key, value)].filter fun a ↦ !a.2.isEmpty := by
    cases value <;> rfl
  rw [attributes, hattribute, hattribute, hline, ← List.filter_append, ← List.filter_append]
  rfl

namespace Project

theorem tools_eq_toolNames (p : Project) : p.tools = p.toolNames := by
  rw [tools, toolNames]
  cases p.clangAnalyzer <;> cases p.clangTidy <;> rfl

theorem toolNames_isEmpty (p : Project) :
    p.toolNames.isEmpty = !(p.clangAnalyzer || p.clangTidy) := by
  rw [toolNames]
  cases p.clangAnalyzer <;> cases p.clangTidy <;> rfl

theorem container_eq {α : Type} (name : Text) (entries : List α) {toNode : α → Node}
    {toLeaf : α → Leaf} (h : ∀ a, toNode a = (toLeaf a).node) :
    container name (entries.map toNode) =
      if !entries.isEmpty then [(Entry.container name (entries.map toLeaf)).node] else [] := by
  rw [funext h]
  cases entries with
  | nil => rfl
  | cons a entries => simp [container, Entry.node]

/-- The writer puts one element into a section that is filled, and none into the others. -/
theorem sectionNodes_eq (p : Project) (s : Section) :
    p.sectionNodes s = if p.fills s then [(p.entry s).node] else [] := by
  have htext (e : Scalar) (value : Text) : scalarNodes.textNodes e value =
      if !value.isEmpty then [(Entry.value (.plain e.element value)).node] else [] := by
    cases value <;> rfl
  have hroot (value : Text) : (if value.isEmpty then [] else
        [.element Scalar.rootPath.element [(nameAttribute, value)] []]) =
      if !value.isEmpty then [(Entry.value (.named "root" value)).node] else [] := by
    cases value <;> rfl
  cases s with
  | scalar s =>
    cases s with
    | rootPath => exact hroot p.rootPath
    | buildDir => exact htext .buildDir p.buildDir
    | platform => exact htext .platform p.platform
    | importProject => exact htext .importProject p.importProject
    | analyzeAllVsConfigs => rfl
  | list field => cases field <;> exact container_eq _ _ fun _ ↦ rfl
  | suppressions =>
    refine container_eq _ _ fun s ↦ ?_
    rw [Suppression.toNode, s.attributes_eq]
    rfl
  | tools =>
    have hleaf (tool : Text) : leaf Tools.item [] tool = (Leaf.plain "tool" tool).node := rfl
    rw [sectionNodes, tools_eq_toolNames, container_eq _ _ hleaf, toolNames_isEmpty, Bool.not_not]
    rfl

theorem isSound_entry {p : Project} {s : Section} (h : p.fills s = true) :
    (p.entry s).node.IsSound 1 := by
  refine p.sectionNodes_isSound s _ ?_
  rw [sectionNodes_eq, if_pos h]
  exact List.mem_singleton_self _

theorem isFilled_entry {p : Project} {s : Section} (h : p.fills s = true) :
    (p.entry s).IsFilled := by
  have hmap {α : Type} {entries : List α} {toLeaf : α → Leaf} (h : (!entries.isEmpty) = true) :
      entries.map toLeaf ≠ [] := by
    simpa using h
  cases s with
  | scalar s => cases s <;> trivial
  | list field => cases field <;> exact hmap h
  | suppressions => exact hmap h
  | tools =>
    refine hmap ?_
    rw [toolNames_isEmpty, Bool.not_not]
    exact h

end Project
end AnalysisProject
