import AnalysisProject.Proofs.Project.Entry
import AnalysisProject.Proofs.Project.RoundTrip
import Mathlib.Data.List.Forall2

namespace AnalysisProject

open CodeUnit Markup Layout

theorem exists_of_mem_of_forall₂ {α β : Type} {R : α → β → Prop} {l : List α} {m : List β}
    (h : List.Forall₂ R l m) {b : β} (hb : b ∈ m) : ∃ a ∈ l, R a b := by
  induction h with
  | nil => cases hb
  | @cons a d l m hr _ ih =>
    rcases List.mem_cons.mp hb with rfl | hb
    · exact ⟨a, List.mem_cons_self .., hr⟩
    · obtain ⟨a, ha, hr⟩ := ih hb
      exact ⟨a, List.mem_cons_of_mem _ ha, hr⟩

namespace Markup.Node

def names : Node → List Text
  | text _ => []
  | element name _ children => name :: children.flatMap names

theorem isElement_spread (gap : Nat → Text) (depth : Nat) (node : Node) :
    (node.spread gap depth).isElement = node.isElement := by
  cases node with
  | text s => rw [spread]
  | element name attributes children =>
    rw [spread]
    rfl

theorem exists_spread_eq (gap : Nat → Text) (depth : Nat) (name : Text) (attributes : Attributes)
    {height : Nat} {children : List Node} (hne : children ≠ [])
    (h : ∀ child ∈ children, child.IsSound height) :
    ∃ nodes, (element name attributes children).spread gap depth = element name attributes nodes ∧
      nodes.filter isElement = children.map (spread gap (depth + 1)) := by
  refine ⟨_, spread_container hne h, filter_spread (fun _ ↦ rfl) fun child hm ↦ ?_⟩
  rw [isElement_spread]
  exact (h child hm).isElement

end Markup.Node

namespace Layout

def Leaf.IsSaidBy (l : Leaf) (node : Node) : Prop :=
  ∃ texts, node = .element l.name l.attributes texts ∧ (∀ child ∈ texts, child.isElement = false) ∧
    node.content = l.content

theorem Leaf.isSaidBy_spread (l : Leaf) (gap : Nat → Text) (depth : Nat) :
    l.IsSaidBy (l.node.spread gap depth) := by
  rw [node, Node.spread_leaf]
  refine ⟨if l.content.isEmpty then [] else [.text l.content], rfl, ?_, Node.content_leaf _ _ _⟩
  intro child hm
  split at hm
  · cases hm
  · rw [List.mem_singleton.mp hm]
    rfl

theorem Leaf.IsSaidBy.names_eq {l : Leaf} {node : Node} (h : l.IsSaidBy node) :
    node.names = [l.name] := by
  obtain ⟨texts, rfl, htexts, -⟩ := h
  rw [Node.names, List.cons.injEq]
  refine ⟨rfl, List.flatMap_eq_nil_iff.mpr ?_⟩
  intro child hm
  cases child with
  | text s => rw [Node.names]
  | element _ _ _ => cases htexts _ hm

namespace Entry

/-- The node says what stands in the section. A container has no attributes; its elements are the
items, and it may hold texts between them. -/
def IsSaidBy : Entry → Node → Prop
  | value l, node => l.IsSaidBy node
  | container name items, node =>
    ∃ children, node = .element name [] children ∧
      List.Forall₂ Leaf.IsSaidBy items (children.filter Node.isElement)

def names : Entry → List Text
  | value l => [l.name]
  | container name items => name :: items.map Leaf.name

variable {e : Entry}

theorem isSaidBy_spread (h : e.node.IsSound 1) (hf : e.IsFilled) (gap : Nat → Text) :
    e.IsSaidBy (e.node.spread gap 1) := by
  cases e with
  | value l => exact l.isSaidBy_spread gap 1
  | container name items =>
    obtain ⟨nodes, hspread, hfilter⟩ :=
      Node.exists_spread_eq gap 1 name [] (List.map_eq_nil_iff.not.mpr hf) (isSound_items h hf)
    refine ⟨nodes, hspread, ?_⟩
    rw [hfilter, List.map_map, List.forall₂_map_right_iff, List.forall₂_same]
    exact fun item _ ↦ item.isSaidBy_spread gap 2

theorem IsSaidBy.names_subset {node : Node} (h : e.IsSaidBy node) : node.names ⊆ e.names := by
  cases e with
  | value l =>
    rw [Leaf.IsSaidBy.names_eq h]
    exact List.Subset.refl _
  | container name items =>
    obtain ⟨children, rfl, hchildren⟩ := h
    intro n hn
    rw [Node.names, List.mem_cons, List.mem_flatMap] at hn
    rcases hn with rfl | ⟨child, hm, hn⟩
    · exact List.mem_cons_self ..
    · cases child with
      | text s =>
        rw [Node.names] at hn
        cases hn
      | element key attributes more =>
        obtain ⟨item, hitem, hsaid⟩ :=
          exists_of_mem_of_forall₂ hchildren (List.mem_filter.mpr ⟨hm, rfl⟩)
        rw [hsaid.names_eq, List.mem_singleton] at hn
        exact List.mem_cons_of_mem _ (hn ▸ List.mem_map_of_mem hitem)

theorem IsSaidBy.name?_eq {node : Node} (h : e.IsSaidBy node) (he : e.name.IsPlainName) :
    node.name? = some e.name := by
  cases e with
  | value l =>
    obtain ⟨texts, rfl, -⟩ := h
    exact Node.name?_element he _ texts
  | container name items =>
    obtain ⟨children, rfl, -⟩ := h
    exact Node.name?_element he [] children

theorem name?_of_forall₂ {entries : List Entry} {nodes : List Node}
    (h : List.Forall₂ IsSaidBy entries nodes)
    (hs : ∀ e ∈ entries, e.name.IsPlainName) : nodes.map Node.name? = entries.map fun e ↦
      some e.name := by
  induction h with
  | nil => rfl
  | cons hsaid _ ih =>
    rw [List.map_cons, List.map_cons, hsaid.name?_eq (hs _ (List.mem_cons_self ..)),
      ih fun e hm ↦ hs e (List.mem_cons_of_mem _ hm)]

end Entry
end Layout

namespace Project

/-- The root of a canonical document. `texts` is the project with its texts as they are read. -/
structure IsCanonical (p texts : Project) (root : Node) (children : List Node) : Prop where
  element : root = .element "project" [("version", "1")] children
  sections : List.Forall₂ Entry.IsSaidBy ((Section.listed.filter p.fills).map texts.entry)
    (children.filter Node.isElement)
  order : ((children.filter Node.isElement).map Node.name?).Sublist
    (Section.listed.map fun s ↦ some (texts.entry s).name)
  legacy : ("ignore" : Text) ∉ root.names

variable (gap : Nat → Text) (p : Project)

theorem isPlainName_entry (s : Section) : (p.entry s).name.IsPlainName := by
  have hall : ∀ s ∈ Section.listed, (({} : Project).entry s).name.IsPlainName := by decide
  have hname : (p.entry s).name = (({} : Project).entry s).name := by
    cases s with
    | scalar s => cases s <;> rfl
    | list field => cases field <;> rfl
    | suppressions | tools => rfl
  rw [hname]
  exact hall s s.mem_listed

theorem ignore_notMem_names (s : Section) : ("ignore" : Text) ∉ (p.entry s).names := by
  have hitems {α : Type} {name item : Text} {toLeaf : α → Leaf} {entries : List α}
      (hitem : ∀ a, (toLeaf a).name = item)
        (hname : ("ignore" : Text) ≠ name ∧ ("ignore" : Text) ≠ item) :
      ("ignore" : Text) ∉ (Entry.container name (entries.map toLeaf)).names := by
    rw [Entry.names, List.map_map, List.mem_cons, List.mem_map]
    rintro (h | ⟨a, -, h⟩)
    · exact hname.1 h
    · exact hname.2 (h.symm.trans (hitem a))
  cases s with
  | scalar s =>
    have hall : ∀ s ∈ Scalar.all, ("ignore" : Text) ∉ (({} : Project).entry (.scalar s)).names := by
      decide
    have hname : (p.entry (.scalar s)).names = (({} : Project).entry (.scalar s)).names := by
      cases s <;> rfl
    rw [hname]
    exact hall s (by cases s <;> decide)
  | list field =>
    cases field
    all_goals
      apply hitems
      · exact fun _ ↦ rfl
      · decide
  | suppressions | tools =>
    apply hitems
    · exact fun _ ↦ rfl
    · decide

theorem forall₂_sectionNodes (sections : List Section) :
    List.Forall₂ Entry.IsSaidBy ((sections.filter p.fills).map p.entry)
      ((sections.flatMap p.sectionNodes).map (Node.spread gap 1)) := by
  induction sections with
  | nil => exact .nil
  | cons s sections ih =>
    rw [List.flatMap_cons, p.sectionNodes_eq s]
    cases h : p.fills s with
    | true =>
      rw [List.filter_cons_of_pos h]
      exact .cons (Entry.isSaidBy_spread (isSound_entry h) (isFilled_entry h) gap) ih
    | false =>
      rw [List.filter_cons_of_neg (ne_true_of_eq_false h)]
      exact ih

theorem fills_mapTexts {f : Text → Text} (hf : Text.Seamless f) (s : Section) :
    (p.mapTexts f).fills s = p.fills s := by
  cases s with
  | scalar s =>
    cases s with
    | rootPath => exact congrArg Bool.not (hf.isEmpty_eq p.rootPath)
    | buildDir => exact congrArg Bool.not (hf.isEmpty_eq p.buildDir)
    | platform => exact congrArg Bool.not (hf.isEmpty_eq p.platform)
    | importProject => exact congrArg Bool.not (hf.isEmpty_eq p.importProject)
    | analyzeAllVsConfigs => rfl
  | list field => cases field <;> exact congrArg Bool.not List.isEmpty_map
  | suppressions => exact congrArg Bool.not List.isEmpty_map
  | tools => rfl

theorem isCanonical_spread {f : Text → Text} (hf : Text.Seamless f) :
    ∃ children, p.IsCanonical (p.mapTexts f) ((p.mapTexts f).toNode.spread gap 0) children := by
  have hignore : ("ignore" : Text) ≠ "project" := by decide
  obtain ⟨children, hroot, hfilter⟩ :=
    Node.exists_spread_eq gap 0 rootElement [(versionAttribute, version)]
    (p.mapTexts f).nodes_ne_nil (p.mapTexts f).nodes_isSound
  have hsections := (p.mapTexts f).forall₂_sectionNodes gap Section.listed
  have hlisted : Section.listed = Section.order := rfl
  rw [hlisted, ← hfilter, List.filter_congr fun s _ ↦ p.fills_mapTexts hf s] at hsections
  refine ⟨children, hroot, hsections, ?_, ?_⟩
  · have hplain : ∀ e ∈ (Section.order.filter p.fills).map (p.mapTexts f).entry,
        e.name.IsPlainName := by
      intro e hm
      obtain ⟨s, -, rfl⟩ := List.mem_map.mp hm
      exact (p.mapTexts f).isPlainName_entry s
    rw [Entry.name?_of_forall₂ hsections hplain, List.map_map]
    exact List.filter_sublist.map _
  · intro hm
    rw [toNode, hroot, Node.names, List.mem_cons, List.mem_flatMap] at hm
    rcases hm with hm | ⟨child, hchild, hm⟩
    · exact hignore hm
    · cases child with
      | text s =>
        rw [Node.names] at hm
        cases hm
      | element name attributes more =>
        obtain ⟨e, he, hsaid⟩ :=
          exists_of_mem_of_forall₂ hsections (List.mem_filter.mpr ⟨hchild, rfl⟩)
        obtain ⟨s, -, rfl⟩ := List.mem_map.mp he
        exact (p.mapTexts f).ignore_notMem_names s (hsaid.names_subset hm)

/-- Whatever a project holds, its document passes the check, and its tree is canonical: no value is
taken for markup. -/
theorem exists_isCanonical_of_render {unit : Text} (hu : IsIndentation unit) :
    check (checkedText (p.render unit)) = .ok () ∧
      (Text.countAll Reference.counted (p.render unit) ≤ Expansion.maxCount →
        ∃ root children, readDocument (dropMark (p.render unit)) = .ok [root] ∧
          p.IsCanonical (p.mapTexts Text.unifyLines) root children) := by
  have hgap := gapOf_ne hu
  rw [countAll_render hu.2, render_eq_document]
  refine ⟨check_document hgap p, ?_⟩
  intro hcount
  have hunified : ∀ depth, ∀ c ∈ (Node.gapOf unit depth).unifyLines, c ≠ less ∧ c ≠ ampersand :=
    fun depth ↦ Text.unifyLines_seamless.forall_mem_ne (hgap depth)
  have hweight : (p.mapTexts Text.unifyLines).toNode.weight = p.toNode.weight := by
    rw [← Text.unifyLines_seamless.toNode, Text.unifyLines_seamless.weight_mapTexts]
  have hread := (readDocument_document hunified (p.mapTexts Text.unifyLines)).1 (hweight ▸ hcount)
  rw [← readDocument_eq] at hread
  obtain ⟨children, hcanonical⟩ :=
    p.isCanonical_spread (fun depth ↦ (Node.gapOf unit depth).unifyLines)
    Text.unifyLines_seamless
  exact ⟨_, children, hread, hcanonical⟩

theorem exists_isCanonical_of_render_awkward :
    let p : Project := { awkward with clangTidy := true }
    IsIndentation "\t" ∧ Text.countAll Reference.counted (p.render "\t") ≤ Expansion.maxCount ∧
      ∃ root children, readDocument (dropMark (p.render "\t")) = .ok [root] ∧
        p.IsCanonical (p.mapTexts Text.unifyLines) root children ∧
        Section.listed.filter p.fills =
          [.scalar .rootPath, .scalar .buildDir, .scalar .analyzeAllVsConfigs,
            .list .excludedPaths, .suppressions, .tools] ∧
        ∃ node ∈ children,
          (Entry.container "tools" [.plain "tool" "clang-tidy"]).IsSaidBy node := by
  intro p
  have hu : IsIndentation "\t" := by decide
  have hcount : Text.countAll Reference.counted (p.render "\t") ≤ Expansion.maxCount := by
    decide +kernel
  obtain ⟨root, children, hread, hcanonical⟩ := (exists_isCanonical_of_render p hu).2 hcount
  refine ⟨hu, hcount, root, children, hread, hcanonical, by decide, ?_⟩
  have htools : (p.mapTexts Text.unifyLines).entry .tools ∈
      (Section.listed.filter p.fills).map (p.mapTexts Text.unifyLines).entry :=
    List.mem_map_of_mem (by decide)
  obtain ⟨node, hnode, hsaid⟩ := exists_of_mem_of_forall₂ hcanonical.sections.flip htools
  exact ⟨node, (List.mem_filter.mp hnode).1, hsaid⟩

end Project
end AnalysisProject
