import AnalysisProject.Proofs.Project.Fields
import AnalysisProject.Proofs.Project.Parse
import AnalysisProject.Proofs.Markup.Provenance
import AnalysisProject.Proofs.Project.Adoption
import AnalysisProject.Proofs.Project.Change

namespace AnalysisProject

open CodeUnit Markup Layout

namespace Project

def texts (p : Project) : List Text :=
  TextField.all.map p.text ++ (ListField.all.flatMap p.list
    ++ p.suppressions.flatMap fun s ↦ [s.errorId, s.fileName, s.symbolName])

theorem forall_mem_texts {p : Project} {P : Text → Prop} :
    (∀ s ∈ p.texts, P s) ↔ (∀ field, P (p.text field)) ∧ (∀ field, ∀ s ∈ p.list field, P s) ∧
      ∀ s ∈ p.suppressions, P s.errorId ∧ P s.fileName ∧ P s.symbolName := by
  have htext (field : TextField) : field ∈ TextField.all := by cases field <;> decide
  have hlist (field : ListField) : field ∈ ListField.all := by cases field <;> decide
  constructor
  · intro h
    refine ⟨fun field ↦ ?_, fun field s hm ↦ ?_, fun s hm ↦ ⟨?_, ?_, ?_⟩⟩
    · exact h _ (List.mem_append_left _ (List.mem_map_of_mem (htext field)))
    · exact h s
        (List.mem_append_right _
          (List.mem_append_left _ (List.mem_flatMap.mpr ⟨field, hlist field, hm⟩)))
    all_goals
      exact h _
        (List.mem_append_right _ (List.mem_append_right _ (List.mem_flatMap.mpr ⟨s, hm, by simp⟩)))
  · rintro ⟨htexts, hlists, hsuppressions⟩ s hm
    rcases List.mem_append.mp hm with hm | hm
    · obtain ⟨field, -, rfl⟩ := List.mem_map.mp hm
      exact htexts field
    · rcases List.mem_append.mp hm with hm | hm
      · obtain ⟨field, -, hm⟩ := List.mem_flatMap.mp hm
        exact hlists field s hm
      · obtain ⟨suppression, hs, hm⟩ := List.mem_flatMap.mp hm
        obtain ⟨he, hf, hn⟩ := hsuppressions suppression hs
        simp only [List.mem_cons, List.not_mem_nil, or_false] at hm
        rcases hm with rfl | rfl | rfl <;> assumption

theorem mapTexts_eq_self {f : Text → Text} {p : Project} (h : ∀ s ∈ p.texts, f s = s) :
    p.mapTexts f = p := by
  obtain ⟨htext, hlist, hsuppression⟩ := forall_mem_texts.mp h
  have hmap {α : Type} {f : α → α} {l : List α} (h : ∀ a ∈ l, f a = a) : l.map f = l :=
    (List.map_congr_left h).trans (List.map_id'' (fun _ ↦ rfl) l)
  have hsuppressions : p.suppressions.map (Suppression.mapTexts f) = p.suppressions := by
    refine hmap fun s hm ↦ ?_
    obtain ⟨he, hf, hn⟩ := hsuppression s hm
    rw [Suppression.mapTexts, he, hf, hn]
  have hlist (field : ListField) : (p.list field).map f = p.list field := hmap (hlist field)
  cases p
  simp only [mapTexts, mk.injEq, true_and]
  exact ⟨htext .rootPath, htext .buildDir, htext .importProject, htext .platform,
    hlist .includeDirs, hlist .defines, hlist .undefines, hlist .checkPaths, hlist .excludedPaths,
    hlist .libraries, hlist .addons, hlist .tags,
    hsuppressions⟩

def normalize (p : Project) : Project := (p.mapTexts Text.unifyLines).stored

/-- Nothing about the project is lost in a document. -/
structure IsSettled (p : Project) : Prop where
  texts : ∀ s ∈ p.texts, carriageReturn ∉ s
  lineNumbers : ∀ s ∈ p.suppressions, LineNumber.IsStorable s.lineNumber

theorem stored_eq_self {p : Project}
    (h : ∀ s ∈ p.suppressions, LineNumber.IsStorable s.lineNumber) : p.stored = p := by
  have hsuppression : ∀ s ∈ p.suppressions, s.stored = s := by
    intro s hm
    rw [Suppression.stored, LineNumber.stored_eq_self (h s hm)]
  rw [stored, List.map_congr_left hsuppression, List.map_id'']
  exact fun _ ↦ rfl

theorem IsSettled.normalize_eq_self {p : Project} (h : p.IsSettled) : p.normalize = p := by
  rw [normalize, mapTexts_eq_self fun s hm ↦ Text.unifyLines_eq_self (h.texts s hm),
    stored_eq_self h.lineNumbers]

end Project

namespace Markup.Node

theorem Avoids.attribute? {c : CodeUnit} {node : Node} (h : node.Avoids c) {name value : Text}
    (ha : node.attribute? name = some value) : c ∉ value := by
  cases h with
  | text _ => cases ha
  | element hattributes _ =>
    obtain ⟨l₁, l₂, hl, -⟩ := List.lookup_eq_some_iff.mp ha
    exact hattributes (name, value) (by simp [hl])

theorem Avoids.getD_attribute? {c : CodeUnit} {node : Node} (h : node.Avoids c) (name : Text) :
    c ∉ (node.attribute? name).getD [] := by
  cases ha : node.attribute? name with
  | none => exact List.not_mem_nil
  | some value => exact h.attribute? ha

theorem Avoids.content {c : CodeUnit} {node : Node} (h : node.Avoids c) : c ∉ node.content := by
  cases h with
  | text _ => exact List.not_mem_nil
  | element _ hchildren =>
    rw [Node.content, List.mem_flatMap]
    rintro ⟨child, hm, hc⟩
    cases hchildren child hm with
    | text hs => exact hs hc
    | element _ _ => cases hc

theorem Avoids.elements {c : CodeUnit} {node : Node} (h : node.Avoids c) :
    ∀ child ∈ node.elements, child.Avoids c := by
  cases h with
  | text _ => exact fun _ hm ↦ absurd hm List.not_mem_nil
  | element _ hchildren => exact fun child hm ↦ hchildren child (List.mem_filter.mp hm).1

theorem Avoids.items {c : CodeUnit} {node : Node} (h : node.Avoids c) (name : Text) :
    ∀ child ∈ Layout.items name node, child.Avoids c :=
  fun child hm ↦ h.elements child (List.mem_filter.mp hm).1

theorem Avoids.values {c : CodeUnit} {node : Node} (h : node.Avoids c) (e : ListEntry) :
    ∀ s ∈ e.values node, c ∉ s := by
  intro s hm
  obtain ⟨item, hitem, hs⟩ := List.mem_filterMap.mp hm
  have ha := h.items e.item item hitem
  rw [ListEntry.value?] at hs
  split at hs
  · exact ha.attribute? hs
  · cases hs
    exact ha.content

end Markup.Node

namespace Project

namespace IsSettled

variable {p : Project} (h : p.IsSettled)

theorem default : IsSettled {} where
  texts := by decide
  lineNumbers := fun _ hm ↦ absurd hm List.not_mem_nil

include h

theorem setText {s : Text} (hs : carriageReturn ∉ s) (field : TextField) :
    (p.setText s field).IsSettled where
  texts := by
    obtain ⟨htext, hlist, hsuppression⟩ := forall_mem_texts.mp h.texts
    refine forall_mem_texts.mpr ⟨fun other ↦ ?_, fun other ↦ ?_, ?_⟩
    · rw [text_setText]
      split
      · exact hs
      · exact htext other
    · rw [list_setText]
      exact hlist other
    · rw [suppressions_setText]
      exact hsuppression
  lineNumbers := by
    rw [suppressions_setText]
    exact h.lineNumbers

theorem append {values : List Text} (hv : ∀ s ∈ values, carriageReturn ∉ s) (field : ListField) :
    (p.append values field).IsSettled where
  texts := by
    obtain ⟨htext, hlist, hsuppression⟩ := forall_mem_texts.mp h.texts
    refine forall_mem_texts.mpr ⟨fun other ↦ ?_, fun other s hm ↦ ?_, ?_⟩
    · rw [Project.append, text_setList]
      exact htext other
    · rw [Project.append, list_setList] at hm
      split at hm
      · rcases List.mem_append.mp hm with hm | hm
        · exact hlist field s hm
        · exact hv s hm
      · exact hlist other s hm
    · rw [Project.append, suppressions_setList]
      exact hsuppression
  lineNumbers := by
    rw [Project.append, suppressions_setList]
    exact h.lineNumbers

theorem setFlag (b : Bool) (field : FlagField) : (p.setFlag b field).IsSettled := by
  cases field <;> exact ⟨h.texts, h.lineNumbers⟩

theorem takeTool (tool : Text) : (p.takeTool tool).IsSettled := by
  rw [Project.takeTool]
  split
  · exact h.setFlag true .clangAnalyzer
  · split
    · exact h.setFlag true .clangTidy
    · exact h

theorem takeScalar {node : Node} (hn : node.Avoids carriageReturn) (s : Scalar) :
    (p.takeScalar node s).IsSettled := by
  cases s with
  | rootPath =>
    rw [Project.takeScalar]
    split
    · next ha =>
      split
      · exact h
      · exact h.setText (hn.attribute? ha) .rootPath
    · exact h
  | buildDir => exact h.setText hn.content .buildDir
  | platform => exact h.setText hn.content .platform
  | importProject => exact h.setText hn.content .importProject
  | analyzeAllVsConfigs =>
    rw [Project.takeScalar]
    split
    · exact h
    · exact h.setFlag _ .analyzeAllVsConfigs

theorem takeSuppressions {nodes : List Node} (hn : ∀ node ∈ nodes, node.Avoids carriageReturn) :
    IsSettled { p with suppressions := p.suppressions ++ nodes.map Suppression.ofNode } where
  texts := by
    obtain ⟨htext, hlist, hsuppression⟩ := forall_mem_texts.mp h.texts
    refine forall_mem_texts.mpr ⟨fun other ↦ ?_, fun other ↦ ?_, fun s hm ↦ ?_⟩
    · have h := htext other
      cases other <;> exact h
    · have h := hlist other
      cases other <;> exact h
    · rcases List.mem_append.mp hm with hm | hm
      · exact hsuppression s hm
      · obtain ⟨node, hnode, rfl⟩ := List.mem_map.mp hm
        have ha := hn node hnode
        exact ⟨ha.content, ha.getD_attribute? _, ha.getD_attribute? _⟩
  lineNumbers := by
    intro s hm
    rcases List.mem_append.mp hm with hm | hm
    · exact h.lineNumbers s hm
    · obtain ⟨node, -, rfl⟩ := List.mem_map.mp hm
      exact LineNumber.isStorable_ofAttribute _

theorem takeNode {node : Node} (hn : node.Avoids carriageReturn) : (p.takeNode node).IsSettled := by
  rw [Project.takeNode]
  split
  · next role _ =>
    cases role with
    | scalar s => exact h.takeScalar hn s
    | list e => exact h.append (hn.values e) e.field
    | suppressions => exact h.takeSuppressions (hn.items _)
    | tools =>
      rw [takeRole]
      generalize items Tools.item node = nodes
      induction nodes generalizing p with
      | nil => exact h
      | cons node nodes ih => exact ih (h.takeTool node.content)
  · exact h

end IsSettled

theorem isSettled_ofNode {root : Node} (h : root.Avoids carriageReturn) :
    (ofNode root).IsSettled := by
  have hfold {p : Project} (hp : p.IsSettled) {nodes : List Node}
      (hn : ∀ node ∈ nodes, node.Avoids carriageReturn) :
      (nodes.foldl Project.takeNode p).IsSettled := by
    induction nodes generalizing p with
    | nil => exact hp
    | cons node nodes ih =>
      exact ih (hp.takeNode (hn node (List.mem_cons_self ..))) fun node hm ↦
        hn node (List.mem_cons_of_mem _ hm)
  exact hfold .default h.elements

/-- What is read from a document is settled. -/
theorem isSettled_of_parse {s : Text} {q : Parsed} (h : parse s = .parsed q) :
    q.project.IsSettled := by
  obtain ⟨nodes, root, hread, hroot, hq⟩ := exists_of_parse_eq_parsed h
  -- The reader unifies the line ends first, and nothing that it does later brings a carriage return
  -- back in.
  have hn := avoids_of_readDocument (by decide) (Text.carriageReturn_not_mem_unifyLines _) hread
  rw [hq]
  exact isSettled_ofNode (hn root hroot)

end Project
end AnalysisProject
