import AnalysisProject.Project.Interpretation
import AnalysisProject.Proofs.Project.Document
import AnalysisProject.Proofs.Project.LineNumber

namespace AnalysisProject

open CodeUnit Markup Layout

def Suppression.stored (s : Suppression) : Suppression :=
  { s with lineNumber := LineNumber.stored s.lineNumber }

def Project.stored (p : Project) : Project :=
  { p with suppressions := p.suppressions.map Suppression.stored }

namespace Markup.Node

theorem name?_element {name : Text} (h : name.IsPlainName) (attributes : Attributes)
    (children : List Node) :
    (element name attributes children).name? = some name := by
  have htext : (name == textName) = false := by
    rw [beq_eq_false_iff_ne]
    rintro rfl
    exact h.not_mem (c := numberSign) rfl (by decide)
  have hattributes : (name == ":@") = false := by
    rw [beq_eq_false_iff_ne]
    rintro rfl
    exact absurd h.isName (by decide)
  have hquestion : Text.startsWith "?" name = false := by
    have hstart := h.startsWith_eq_false (c := question) rfl [] []
    rwa [List.append_nil] at hstart
  rw [name?, htext, hattributes, hquestion]
  rfl

theorem IsSound.isSome_name? {height : Nat} {node : Node} (h : node.IsSound height) :
    node.name?.isSome = true := by
  cases h with
  | empty ht | text ht _ | container ht _ _ => rw [name?_element ht.name_isPlainName]; rfl

theorem name?_spread (gap : Nat → Text) (depth : Nat) (node : Node) :
    (node.spread gap depth).name? = node.name? := by
  cases node with
  | text s => rw [spread]
  | element name attributes children =>
    rw [spread]
    rfl

theorem elements_spread {gap : Nat → Text} {depth height : Nat} {name : Text}
    {attributes : Attributes} {children : List Node} (hne : children ≠ [])
    (h : ∀ child ∈ children, child.IsSound height) :
    ((element name attributes children).spread gap depth).elements = children.map
    (spread gap (depth + 1)) := by
  rw [spread_container hne h, elements]
  refine filter_spread (fun _ ↦ rfl) fun child hm ↦ ?_
  rw [name?_spread]
  exact (h child hm).isSome_name?

theorem spread_leaf (gap : Nat → Text) (depth : Nat) (name : Text) (attributes : Attributes)
    (s : Text) :
    (leaf name attributes s).spread gap depth = leaf name attributes s := by
  rw [leaf, spread]
  split
  · rfl
  · rfl

theorem content_leaf (name : Text) (attributes : Attributes) (s : Text) :
    (leaf name attributes s).content = s := by
  rw [leaf, content]
  split
  · next h => exact (List.isEmpty_iff.mp h).symm
  · exact List.append_nil s

end Markup.Node

namespace Layout

variable {gap : Nat → Text}

theorem items_container {name item : Text} {nodes : List Node} (hne : nodes ≠ [])
    (h : ∀ node ∈ nodes, node.IsSound 0 ∧ node.name? = some item ∧ node.spread gap 2 = node) :
    items item ((Node.element name [] nodes).spread gap 1) = nodes := by
  rw [items, Node.elements_spread hne fun node hm ↦ (h node hm).1, List.map_congr_left fun node hm ↦
    (h node hm).2.2,
    List.map_id', List.filter_eq_self]
  exact fun node hm ↦ beq_iff_eq.mpr (h node hm).2.1

namespace ListEntry

theorem item_isPlainName (field : ListField) : (canonical field).item.IsPlainName := by
  cases field <;> decide

theorem name?_itemNode (field : ListField) (value : Text) :
    ((canonical field).itemNode value).name? = some (canonical field).item := by
  have h := item_isPlainName field
  cases field <;> exact Node.name?_element h _ _

theorem spread_itemNode (depth : Nat) (field : ListField) (value : Text) :
    ((canonical field).itemNode value).spread gap depth = (canonical field).itemNode value := by
  have hattribute (item : Text) : (Node.element item [(nameAttribute, value)] []).spread gap depth =
      .element item [(nameAttribute, value)] [] := by
    rw [Node.spread]
    rfl
  cases field
  case includeDirs | defines | checkPaths | excludedPaths => exact hattribute _
  case undefines | libraries | addons | tags => exact Node.spread_leaf _ _ _ [] value

theorem value?_itemNode (field : ListField) (value : Text) :
    (canonical field).value? ((canonical field).itemNode value) = some value := by
  cases field
  case includeDirs | defines | checkPaths | excludedPaths => rfl
  case undefines | libraries | addons | tags => exact congrArg some (Node.content_leaf _ [] value)

end ListEntry
end Layout

/-- A suppression gives itself back, as far as a document keeps it. -/
theorem Suppression.ofNode_toNode (s : Suppression) : ofNode s.toNode = s.stored := by
  have hfile : (s.attributes.lookup Suppressions.fileNameAttribute).getD [] = s.fileName := by
    rw [attributes]
    split
    · next h => split <;> split <;> exact (List.isEmpty_iff.mp h).symm
    · rfl
  have hline : LineNumber.ofAttribute (s.attributes.lookup Suppressions.lineNumberAttribute) =
      LineNumber.stored s.lineNumber := by
    rw [attributes]
    by_cases h : LineNumber.isValid s.lineNumber = true
    · rw [LineNumber.stored_of_isValid h, if_pos h]
      have hparse : LineNumber.ofAttribute (some s.lineNumber.text) = s.lineNumber :=
        LineNumber.parse_text h
      split <;> exact hparse
    · rw [LineNumber.stored_of_not_isValid h, if_neg h]
      split <;> split <;> rfl
  have hsymbol : (s.attributes.lookup Suppressions.symbolNameAttribute).getD [] = s.symbolName := by
    rw [attributes]
    by_cases h : s.symbolName.isEmpty = true
    · rw [if_pos h, List.isEmpty_iff.mp h]
      split <;> split <;> rfl
    · rw [if_neg h]
      split <;> split <;> rfl
  have hattribute (name : Text) : s.toNode.attribute? name = s.attributes.lookup name := rfl
  rw [ofNode, toNode, Node.content_leaf, ← toNode, hattribute, hattribute, hattribute, hfile,
    hline, hsymbol]
  rfl

namespace Project

def adopt (q p : Project) : Section → Project
  | .scalar .rootPath =>
    { p with rootPath := if q.rootPath.isEmpty then p.rootPath else q.rootPath }
  | .scalar .buildDir =>
    { p with buildDir := if q.buildDir.isEmpty then p.buildDir else q.buildDir }
  | .scalar .platform =>
    { p with platform := if q.platform.isEmpty then p.platform else q.platform }
  | .scalar .importProject =>
    { p with importProject := if q.importProject.isEmpty then p.importProject else q.importProject }
  | .scalar .analyzeAllVsConfigs => { p with analyzeAllVsConfigs := q.analyzeAllVsConfigs }
  | .list field => p.append (q.list field) field
  | .suppressions =>
    { p with suppressions := p.suppressions ++ q.suppressions.map Suppression.stored }
  | .tools =>
    { p with
      clangAnalyzer := p.clangAnalyzer || q.clangAnalyzer
      clangTidy := p.clangTidy || q.clangTidy }

variable (gap : Nat → Text) (q p : Project)

theorem takeNode_of_role {node : Node} {role : Role}
    (h : node.name?.bind Role.ofName? = some role) :
    p.takeNode node = p.takeRole node role := by
  rw [takeNode, h]

theorem foldl_container {name : Text} {role : Role} (hn : name.IsPlainName)
    (hr : Role.ofName? name = some role) (nodes : List Node) :
    (container name nodes).foldl (fun p node ↦ p.takeNode (node.spread gap 1)) p =
      if nodes.isEmpty then p else p.takeRole ((Node.element name [] nodes).spread gap 1) role := by
  rw [container]
  split
  · rfl
  · refine takeNode_of_role p ?_
    rw [Node.name?_spread, Node.name?_element hn]
    exact hr

theorem append_nil (field : ListField) : p.append [] field = p := by
  cases field <;> simp [append, setList, list]

theorem foldl_list (field : ListField) :
    (q.sectionNodes (.list field)).foldl (fun p node ↦ p.takeNode (node.spread gap 1)) p =
      p.append (q.list field) field := by
  have hname : (ListEntry.canonical field).container.IsPlainName := by cases field <;> decide
  have hrole : Role.ofName? (ListEntry.canonical field).container =
      some (.list (ListEntry.canonical field)) := by
    cases field <;> rfl
  have hfield : (ListEntry.canonical field).field = field := by cases field <;> rfl
  rw [sectionNodes]
  refine (foldl_container gap p hname hrole _).trans ?_
  split
  · next h =>
    rw [List.map_eq_nil_iff.mp (List.isEmpty_iff.mp h), append_nil]
  · next h =>
    have hitems : ∀ node ∈ (q.list field).map (ListEntry.canonical field).itemNode,
        node.IsSound 0 ∧ node.name? = some (ListEntry.canonical field).item ∧
          node.spread gap 2 = node := by
      intro node hm
      obtain ⟨value, -, rfl⟩ := List.mem_map.mp hm
      exact ⟨ListEntry.itemNode_isSound field value 0, ListEntry.name?_itemNode field value,
        ListEntry.spread_itemNode 2 field value⟩
    have hvalues : ((q.list field).map (ListEntry.canonical field).itemNode).filterMap
        (ListEntry.canonical field).value? = q.list field := by
      rw [List.filterMap_map]
      exact (congrArg (List.filterMap · _) (funext (ListEntry.value?_itemNode field))).trans
        List.filterMap_some
    rw [takeRole, ListEntry.values, items_container (mt List.isEmpty_iff.mpr h) hitems,
      hvalues, hfield]

theorem foldl_suppressions :
    (q.sectionNodes .suppressions).foldl (fun p node ↦ p.takeNode (node.spread gap 1)) p =
      { p with suppressions := p.suppressions ++ q.suppressions.map Suppression.stored } := by
  rw [sectionNodes]
  refine (foldl_container gap p (by decide) (show Role.ofName? _ = some .suppressions
    from rfl) _).trans ?_
  split
  · next h =>
    rw [List.map_eq_nil_iff.mp (List.isEmpty_iff.mp h), List.map_nil, List.append_nil]
  · next h =>
    have hitems : ∀ node ∈ q.suppressions.map Suppression.toNode,
        node.IsSound 0 ∧ node.name? = some Suppressions.item ∧ node.spread gap 2 = node := by
      intro node hm
      obtain ⟨suppression, -, rfl⟩ := List.mem_map.mp hm
      exact ⟨suppression.toNode_isSound 0, Node.name?_element (by decide) _ _,
        Node.spread_leaf _ _ _ _ _⟩
    rw [takeRole, items_container (mt List.isEmpty_iff.mpr h) hitems, List.map_map]
    exact congrArg (fun suppressions ↦ { p with suppressions := p.suppressions ++ suppressions })
      (List.map_congr_left fun suppression _ ↦ Suppression.ofNode_toNode suppression)

theorem foldl_takeTool :
    q.tools.foldl takeTool p =
      { p with
        clangAnalyzer := p.clangAnalyzer || q.clangAnalyzer
        clangTidy := p.clangTidy || q.clangTidy } := by
  have hanalyzer (p : Project) : p.takeTool Tools.clangAnalyzer =
    { p with clangAnalyzer := true } := rfl
  have htidy (p : Project) : p.takeTool Tools.clangTidy = { p with clangTidy := true } := rfl
  rw [tools]
  cases q.clangAnalyzer <;> cases q.clangTidy <;> simp [hanalyzer, htidy]

theorem foldl_tools :
    (q.sectionNodes .tools).foldl (fun p node ↦ p.takeNode (node.spread gap 1)) p =
      { p with
        clangAnalyzer := p.clangAnalyzer || q.clangAnalyzer
        clangTidy := p.clangTidy || q.clangTidy } := by
  rw [sectionNodes, ← foldl_takeTool]
  refine (foldl_container gap p (by decide) (show Role.ofName? _ = some .tools from rfl) _).trans ?_
  split
  · next h =>
    rw [List.map_eq_nil_iff.mp (List.isEmpty_iff.mp h)]
    rfl
  · next h =>
    have hitems : ∀ node ∈ q.tools.map (leaf Tools.item []),
        node.IsSound 0 ∧ node.name? = some Tools.item ∧ node.spread gap 2 = node := by
      intro node hm
      obtain ⟨tool, -, rfl⟩ := List.mem_map.mp hm
      exact ⟨leaf_isSound (by decide) tool 0, Node.name?_element (by decide) _ _,
        Node.spread_leaf _ _ _ _ _⟩
    rw [takeRole, items_container (mt List.isEmpty_iff.mpr h) hitems, List.foldl_map]
    simp only [Node.content_leaf]

theorem takeNode_leaf {s : Scalar} (hn : s.element.IsPlainName)
    (hr : Role.ofName? s.element = some (.scalar s))
    (value : Text) : p.takeNode ((leaf s.element [] value).spread gap 1) =
      p.takeScalar (leaf s.element [] value) s := by
  have hrole : (leaf s.element [] value).name?.bind Role.ofName? = some (.scalar s) := by
    rw [leaf, Node.name?_element hn]
    exact hr
  rw [Node.spread_leaf]
  exact takeNode_of_role p hrole

theorem foldl_takeNode (s : Section) :
    (q.sectionNodes s).foldl (fun p node ↦ p.takeNode (node.spread gap 1)) p = q.adopt p s := by
  have htext {s : Scalar} (hn : s.element.IsPlainName)
      (hr : Role.ofName? s.element = some (.scalar s)) (value : Text) :
      (scalarNodes.textNodes s value).foldl (fun p node ↦ p.takeNode (node.spread gap 1)) p =
        if value.isEmpty then p else p.takeScalar (leaf s.element [] value) s := by
    rw [scalarNodes.textNodes]
    split
    · rfl
    · exact takeNode_leaf gap p hn hr value
  cases s with
  | scalar s =>
    cases s with
    | rootPath =>
      rw [sectionNodes, scalarNodes, adopt]
      by_cases h : q.rootPath.isEmpty = true
      · rw [if_pos h, if_pos h]
        rfl
      · have hspread :
          (Node.element Scalar.rootPath.element [(nameAttribute, q.rootPath)] []).spread gap 1 =
            .element Scalar.rootPath.element [(nameAttribute, q.rootPath)] [] := by
          rw [Node.spread]
          rfl
        rw [if_neg h, if_neg h, List.foldl_cons, List.foldl_nil, hspread]
        exact if_neg h
    | buildDir =>
      refine (htext (s := .buildDir) (by decide) rfl q.buildDir).trans ?_
      rw [takeScalar, Node.content_leaf, adopt]
      cases q.buildDir.isEmpty <;> rfl
    | platform =>
      refine (htext (s := .platform) (by decide) rfl q.platform).trans ?_
      rw [takeScalar, Node.content_leaf, adopt]
      cases q.platform.isEmpty <;> rfl
    | importProject =>
      refine (htext (s := .importProject) (by decide) rfl q.importProject).trans ?_
      rw [takeScalar, Node.content_leaf, adopt]
      cases q.importProject.isEmpty <;> rfl
    | analyzeAllVsConfigs =>
      refine (takeNode_leaf gap p (s := .analyzeAllVsConfigs) (by decide) rfl _).trans ?_
      rw [takeScalar, Node.content_leaf, adopt]
      cases q.analyzeAllVsConfigs <;> rfl
  | list field => exact foldl_list gap q p field
  | suppressions => exact foldl_suppressions gap q p
  | tools => exact foldl_tools gap q p

theorem foldl_adopt : Section.order.foldl q.adopt {} = q.stored := by
  -- An empty text is not taken over, but the project that is filled up has an empty one already.
  have hkeep (s : Text) : (if s.isEmpty then [] else s) = s := by cases s <;> rfl
  simp only [Section.order, List.foldl_cons, List.foldl_nil, adopt, append, setList, list, hkeep,
    List.nil_append, Bool.false_or, stored]

/-- The tree of a project gives the project back. -/
theorem ofNode_spread : ofNode (p.toNode.spread gap 0) = p.stored := by
  rw [ofNode, toNode, Node.elements_spread p.nodes_ne_nil p.nodes_isSound, List.foldl_map,
    List.foldl_flatMap]
  simp only [foldl_takeNode]
  exact p.foldl_adopt

end Project
end AnalysisProject
