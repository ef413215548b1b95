import AnalysisProject.Proofs.Fold
import AnalysisProject.Proofs.Project.Fields
import AnalysisProject.Proofs.Project.Parse

namespace AnalysisProject

open Markup Layout

namespace Markup.Node

def itemsIn (root : Node) (containers : List Text) (item : Text) : List Node :=
  (root.elements.filter fun child ↦ containers.any fun name ↦ child.name? == some name).flatMap
    (items item)

def attributesIn (root : Node) (containers : List Text) (item name : Text) : List Text :=
  (root.itemsIn containers item).filterMap (·.attribute? name)

def textsIn (root : Node) (containers : List Text) (item : Text) : List Text :=
  (root.itemsIn containers item).map content

/-- The project is what the children of `root` say it is. -/
structure Describes (root : Node) (p : Project) : Prop where
  rootPath : p.rootPath = latest (fun child ↦ (child.attribute? "name").filter (!·.isEmpty))
    (items "root" root) []
  buildDir : p.buildDir = latest (fun child ↦ some child.content) (items "builddir" root) []
  platform : p.platform = latest (fun child ↦ some child.content) (items "platform" root) []
  importProject : p.importProject =
    latest (fun child ↦ some child.content) (items "importproject" root) []
  analyzeAllVsConfigs : p.analyzeAllVsConfigs =
    latest (fun child ↦ if child.content.isEmpty then none else some (child.content == "true"))
      (items "analyze-all-vs-configs" root) true
  includeDirs : p.includeDirs = root.attributesIn ["includedir"] "dir" "name"
  defines : p.defines = root.attributesIn ["defines"] "define" "name"
  undefines : p.undefines = root.textsIn ["undefines"] "undefine"
  checkPaths : p.checkPaths = root.attributesIn ["paths"] "dir" "name"
  excludedPaths : p.excludedPaths = root.attributesIn ["exclude", "ignore"] "path" "name"
  libraries : p.libraries = root.textsIn ["libraries"] "library"
  addons : p.addons = root.textsIn ["addons"] "addon"
  tags : p.tags = root.textsIn ["tags"] "tag"
  suppressions : p.suppressions = (root.itemsIn ["suppressions"] "suppression").map fun item ↦
    { errorId := item.content
      fileName := (item.attribute? "fileName").getD []
      lineNumber := ((item.attribute? "lineNumber").map LineNumber.parse).getD (.integer (-1))
      symbolName := (item.attribute? "symbolName").getD [] }
  clangAnalyzer : p.clangAnalyzer = (root.textsIn ["tools"] "tool").contains "clang-analyzer"
  clangTidy : p.clangTidy = (root.textsIn ["tools"] "tool").contains "clang-tidy"

def role? (node : Node) : Option Role := node.name?.bind Role.ofName?

end Markup.Node

namespace Layout.Role

def name : Role → Text
  | scalar s => s.element
  | list e => e.container
  | suppressions => Suppressions.container
  | tools => Tools.container

def all : List Role := Scalar.all.map scalar ++ (ListEntry.all.map list ++ [suppressions, tools])

theorem ofName?_name : ∀ role ∈ all, ofName? role.name = some role := by decide

theorem name_of_ofName? {name : Text} {role : Role} (h : ofName? name = some role) :
    role ∈ all ∧ role.name = name := by
  rw [ofName?] at h
  split at h
  · next s hs =>
    cases h
    have hall : ∀ s ∈ Scalar.all, scalar s ∈ all := by decide
    exact ⟨hall s (List.mem_of_find?_eq_some hs), beq_iff_eq.mp (List.find?_some hs :)⟩
  · split at h
    · next hn =>
      cases h
      exact ⟨by decide, (beq_iff_eq.mp hn).symm⟩
    · split at h
      · next hn =>
        cases h
        exact ⟨by decide, (beq_iff_eq.mp hn).symm⟩
      · obtain ⟨e, he, rfl⟩ := Option.map_eq_some_iff.mp h
        have hall : ∀ e ∈ ListEntry.all, list e ∈ all := by decide
        exact ⟨hall e (List.mem_of_find?_eq_some he), beq_iff_eq.mp (List.find?_some he :)⟩

end Layout.Role

namespace Markup.Node

theorem name?_eq_some_iff (node : Node) {role : Role} (h : role ∈ Role.all) :
    node.name? = some role.name ↔ node.role? = some role := by
  rw [role?]
  constructor
  · intro hn
    rw [hn]
    exact Role.ofName?_name role h
  · intro hr
    obtain ⟨name, hn, hrole⟩ := Option.bind_eq_some_iff.mp hr
    rw [hn, (Role.name_of_ofName? hrole).2]

theorem items_name (root : Node) (role : Role) (h : role ∈ Role.all) :
    items role.name root = root.elements.filter fun child ↦ child.role? == some role := by
  refine List.filter_congr fun child _ ↦ ?_
  rw [Bool.eq_iff_iff, beq_iff_eq, beq_iff_eq, name?_eq_some_iff child h]

theorem itemsIn_names (root : Node) (roles : List Role) (h : ∀ role ∈ roles, role ∈ Role.all)
    (item : Text) :
    root.itemsIn (roles.map Role.name) item =
      (root.elements.filter fun child ↦ roles.any (child.role? == some ·)).flatMap
      (items item) := by
  refine congrArg (List.flatMap (items item)) (List.filter_congr fun child _ ↦ ?_)
  rw [List.any_map, Bool.eq_iff_iff, List.any_eq_true, List.any_eq_true]
  refine exists_congr fun role ↦ and_congr_right fun hm ↦ ?_
  rw [Function.comp_apply, beq_iff_eq, beq_iff_eq, name?_eq_some_iff child (h role hm)]

end Markup.Node

namespace Project

variable (p : Project) (node : Node)

theorem takeNode_eq : p.takeNode node = (node.role?.map (p.takeRole node)).getD p := by
  rw [takeNode, Node.role?]
  cases node.name?.bind Role.ofName? <;> rfl

/-- What is not set by an element with one value stays as it is where one is taken in. -/
theorem view_takeScalar {β : Type} (view : Project → β)
    (htext : ∀ p s field, view (setText p s field) = view p)
    (hflag : ∀ p b, view (setFlag p b .analyzeAllVsConfigs) = view p) (s : Scalar) :
    view (p.takeScalar node s) = view p := by
  cases s with
  | rootPath =>
    rw [takeScalar]
    split
    · next s _ =>
      split
      · rfl
      · exact htext p s .rootPath
    · rfl
  | buildDir => exact htext p _ .buildDir
  | platform => exact htext p _ .platform
  | importProject => exact htext p _ .importProject
  | analyzeAllVsConfigs =>
    rw [takeScalar]
    split
    · rfl
    · exact hflag p _

theorem view_takeTools {β : Type} (view : Project → β)
    (h : ∀ p field, field ≠ .analyzeAllVsConfigs → view (setFlag p true field) = view p)
    (items : List Node) :
    view (items.foldl (fun p item ↦ p.takeTool item.content) p) = view p := by
  induction items generalizing p with
  | nil => rfl
  | cons item items ih =>
    rw [List.foldl_cons, ih, takeTool]
    split
    · exact h p .clangAnalyzer (by decide)
    · split
      · exact h p .clangTidy (by decide)
      · rfl

section Scalars

def scalarOf : TextField → Scalar
  | .rootPath => .rootPath
  | .buildDir => .buildDir
  | .importProject => .importProject
  | .platform => .platform

def textFrom (node : Node) : TextField → Option Text
  | .rootPath => (node.attribute? nameAttribute).filter (!·.isEmpty)
  | .buildDir | .importProject | .platform => some node.content

theorem text_takeNode (field : TextField) : (p.takeNode node).text field =
    if node.role? == some (.scalar (scalarOf field)) then (textFrom node field).getD (p.text field)
    else p.text field := by
  rw [takeNode_eq]
  cases node.role? with
  | none => rfl
  | some role =>
    rw [Option.map_some, Option.getD_some]
    cases role with
    | scalar s =>
      cases s with
      | rootPath =>
        rw [takeRole, takeScalar, textFrom.eq_def]
        cases node.attribute? nameAttribute with
        | none => cases field <;> rfl
        | some s => cases s <;> cases field <;> rfl
      | buildDir | platform | importProject => cases field <;> rfl
      | analyzeAllVsConfigs =>
        rw [takeRole, takeScalar]
        split <;> cases field <;> rfl
    | list e => exact text_setList p _ e.field field
    | suppressions => exact text_setSuppressions p _ field
    | tools =>
      exact view_takeTools p (·.text field) (fun p other _ ↦ text_setFlag p true other field) _

def configsFrom (node : Node) : Option Bool :=
  if node.content.isEmpty then none else some (node.content == "true")

theorem analyzeAllVsConfigs_takeNode : (p.takeNode node).analyzeAllVsConfigs =
    if node.role? == some (.scalar .analyzeAllVsConfigs) then
      (configsFrom node).getD p.analyzeAllVsConfigs
    else p.analyzeAllVsConfigs := by
  rw [takeNode_eq]
  cases node.role? with
  | none => rfl
  | some role =>
    rw [Option.map_some, Option.getD_some]
    cases role with
    | scalar s =>
      cases s with
      | rootPath =>
        rw [takeRole, takeScalar]
        split
        · split <;> rfl
        · rfl
      | buildDir | platform | importProject => rfl
      | analyzeAllVsConfigs =>
        rw [takeRole, takeScalar, configsFrom]
        split <;> rfl
    | list e => exact flag_setList p _ e.field .analyzeAllVsConfigs
    | suppressions => rfl
    | tools =>
      refine view_takeTools p (·.flag .analyzeAllVsConfigs) (fun p field hf ↦ ?_) _
      rw [flag_setFlag, if_neg hf.symm]

end Scalars

section Lists

def rolesOf (field : ListField) : List Role := (ListEntry.all.filter (·.field == field)).map .list

theorem any_rolesOf {field : ListField} {role? : Option Role} :
    (rolesOf field).any (role? == some ·) = true ↔ ∃ e ∈ ListEntry.all, e.field = field ∧
      role? = some (.list e) := by
  simp [rolesOf]

/-- All spellings of a list have the same items. -/
theorem values_eq_canonical {e : ListEntry} (h : e ∈ ListEntry.all) :
    e.values node = (ListEntry.canonical e.field).values node := by
  have hall : ∀ e ∈ ListEntry.all,
      e.item = (ListEntry.canonical e.field).item ∧
        e.style = (ListEntry.canonical e.field).style := by
    decide
  obtain ⟨hitem, hstyle⟩ := hall e h
  have hvalue : e.value? = (ListEntry.canonical e.field).value? := by
    funext item
    rw [ListEntry.value?, ListEntry.value?, hstyle]
  rw [ListEntry.values, ListEntry.values, hitem, hvalue]

theorem mem_all_of_role? {e : ListEntry} (h : node.role? = some (.list e)) : e ∈ ListEntry.all := by
  obtain ⟨name, -, hrole⟩ := Option.bind_eq_some_iff.mp h
  have hm := (Role.name_of_ofName? hrole).1
  simpa [Role.all] using hm

theorem list_takeNode (field : ListField) : (p.takeNode node).list field =
    if (rolesOf field).any (node.role? == some ·) then
      p.list field ++ (ListEntry.canonical field).values node
    else p.list field := by
  by_cases h : (rolesOf field).any (node.role? == some ·) = true
  · obtain ⟨e, he, rfl, hr⟩ := any_rolesOf.mp h
    rw [if_pos h, takeNode_eq, hr, Option.map_some, Option.getD_some, takeRole, append,
      list_setList, if_pos rfl, values_eq_canonical node he]
  · rw [if_neg h, takeNode_eq]
    cases hr : node.role? with
    | none => rfl
    | some role =>
      rw [Option.map_some, Option.getD_some]
      cases role with
      | scalar s =>
        exact view_takeScalar p node (·.list field) (fun p s other ↦ list_setText p s other field)
          (fun p b ↦ list_setFlag p b _ field) s
      | list e =>
        have hne : field ≠ e.field :=
          fun hf ↦ h (any_rolesOf.mpr ⟨e, mem_all_of_role? node hr, hf.symm, hr⟩)
        rw [takeRole, append, list_setList, if_neg hne]
      | suppressions => exact list_setSuppressions p _ field
      | tools =>
        exact view_takeTools p (·.list field) (fun p other _ ↦ list_setFlag p true other field) _

theorem suppressions_takeNode : (p.takeNode node).suppressions =
    if [Role.suppressions].any (node.role? == some ·) then
      p.suppressions ++ (items Suppressions.item node).map Suppression.ofNode
    else p.suppressions := by
  rw [takeNode_eq]
  cases node.role? with
  | none => rfl
  | some role =>
    rw [Option.map_some, Option.getD_some]
    cases role with
    | scalar s =>
      exact view_takeScalar p node (·.suppressions) suppressions_setText (fun p b ↦
        suppressions_setFlag p b _) s
    | list e => exact suppressions_setList p _ e.field
    | suppressions => rfl
    | tools =>
      exact view_takeTools p (·.suppressions) (fun p other _ ↦ suppressions_setFlag p true other) _

end Lists

section Tools

structure IsFlagOf (field : FlagField) (tool : Text) : Prop where
  ne : field ≠ .analyzeAllVsConfigs
  takeTool : ∀ p s, (takeTool p s).flag field = (p.flag field || s == tool)

theorem isFlagOf_clangAnalyzer : IsFlagOf .clangAnalyzer Tools.clangAnalyzer where
  ne := by decide
  takeTool p s := by
    rw [Project.takeTool]
    cases s == Tools.clangAnalyzer with
    | true => exact (Bool.or_true _).symm
    | false => cases s == Tools.clangTidy <;> exact (Bool.or_false _).symm

theorem isFlagOf_clangTidy : IsFlagOf .clangTidy Tools.clangTidy where
  ne := by decide
  takeTool p s := by
    rw [Project.takeTool]
    by_cases h : s = Tools.clangAnalyzer
    · subst h
      exact (Bool.or_false _).symm
    · rw [beq_eq_false_iff_ne.mpr h]
      cases s == Tools.clangTidy with
      | true => exact (Bool.or_true _).symm
      | false => exact (Bool.or_false _).symm

theorem flag_takeNode {field : FlagField} {tool : Text} (h : IsFlagOf field tool) :
    (p.takeNode node).flag field =
    if [Role.tools].any (node.role? == some ·) then
      p.flag field || (items Tools.item node).any (·.content == tool)
    else p.flag field := by
  rw [takeNode_eq]
  cases node.role? with
  | none => rfl
  | some role =>
    rw [Option.map_some, Option.getD_some]
    cases role with
    | scalar s =>
      refine view_takeScalar p node (·.flag field) (fun p s other ↦ flag_setText p s other field)
        (fun p b ↦ ?_) s
      rw [flag_setFlag, if_neg h.ne]
    | list e => exact flag_setList p _ e.field field
    | suppressions => exact flag_setSuppressions p _ field
    | tools =>
      have hfold := foldl_any (p := fun _ ↦ true) (·.flag field) (·.content == tool)
        (fun p item ↦ h.takeTool p item.content) (items Tools.item node) p
      rwa [List.filter_eq_self.mpr fun _ _ ↦ rfl] at hfold

end Tools

section Root

variable (root : Node)

theorem text_ofNode (field : TextField) :
    (ofNode root).text field = latest (textFrom · field)
    (items (scalarOf field).element root) [] := by
  have hrole : Role.scalar (scalarOf field) ∈ Role.all := by cases field <;> decide
  have hitems : items (scalarOf field).element root = _ := root.items_name _ hrole
  have hempty : text {} field = [] := by cases field <;> rfl
  rw [hitems, ← hempty]
  exact foldl_latest (·.text field) (textFrom · field) (fun p node ↦ text_takeNode p node field)
    root.elements {}

theorem analyzeAllVsConfigs_ofNode : (ofNode root).analyzeAllVsConfigs =
    latest configsFrom (items Scalar.analyzeAllVsConfigs.element root) true := by
  have hitems : items Scalar.analyzeAllVsConfigs.element root = _ :=
    root.items_name (.scalar .analyzeAllVsConfigs) (by decide)
  rw [hitems]
  exact foldl_latest analyzeAllVsConfigs configsFrom analyzeAllVsConfigs_takeNode root.elements {}

theorem list_ofNode (field : ListField) : (ofNode root).list field =
    (root.itemsIn ((rolesOf field).map Role.name) (ListEntry.canonical field).item).filterMap
      (ListEntry.canonical field).value? := by
  have hroles : ∀ role ∈ rolesOf field, role ∈ Role.all := by cases field <;> decide
  have hempty : list {} field = [] := by cases field <;> rfl
  have hfold := foldl_collect (·.list field) (ListEntry.canonical field).values
    (fun p node ↦ list_takeNode p node field) root.elements {}
  rw [Node.itemsIn_names root _ hroles, List.filterMap_flatMap]
  rwa [hempty, List.nil_append] at hfold

theorem suppressions_ofNode : (ofNode root).suppressions =
    (root.itemsIn [Suppressions.container] Suppressions.item).map Suppression.ofNode := by
  have hnames := Node.itemsIn_names root [.suppressions] (by decide) Suppressions.item
  have hfold :=
    foldl_collect suppressions (fun node ↦ (items Suppressions.item node).map Suppression.ofNode)
    suppressions_takeNode root.elements {}
  rw [show [Suppressions.container] = [Role.suppressions].map Role.name from rfl, hnames,
    List.map_flatMap]
  exact hfold

theorem flag_ofNode {field : FlagField} {tool : Text} (h : IsFlagOf field tool) :
    (ofNode root).flag field = (root.textsIn [Tools.container] Tools.item).contains tool := by
  have hnames := Node.itemsIn_names root [.tools] (by decide) Tools.item
  have hfold :=
    foldl_any (·.flag field) (fun node ↦ (items Tools.item node).any (·.content == tool))
    (fun p node ↦ flag_takeNode p node h) root.elements {}
  have hoff : flag {} field = false := by
    cases field with
    | analyzeAllVsConfigs => exact absurd rfl h.ne
    | clangAnalyzer | clangTidy => rfl
  rw [Node.textsIn, show [Tools.container] = [Role.tools].map Role.name from rfl, hnames,
    List.contains_eq_any_beq, List.any_map, List.any_flatMap, ofNode, hfold, hoff, Bool.false_or]
  simp only [Function.comp_def, Bool.beq_comm]

theorem describes_ofNode : root.Describes (ofNode root) where
  rootPath := text_ofNode root .rootPath
  buildDir := text_ofNode root .buildDir
  platform := text_ofNode root .platform
  importProject := text_ofNode root .importProject
  analyzeAllVsConfigs := analyzeAllVsConfigs_ofNode root
  includeDirs := list_ofNode root .includeDirs
  defines := list_ofNode root .defines
  undefines := (list_ofNode root .undefines).trans (congrFun List.filterMap_eq_map _)
  checkPaths := list_ofNode root .checkPaths
  excludedPaths := list_ofNode root .excludedPaths
  libraries := (list_ofNode root .libraries).trans (congrFun List.filterMap_eq_map _)
  addons := (list_ofNode root .addons).trans (congrFun List.filterMap_eq_map _)
  tags := (list_ofNode root .tags).trans (congrFun List.filterMap_eq_map _)
  suppressions := suppressions_ofNode root
  clangAnalyzer := flag_ofNode root isFlagOf_clangAnalyzer
  clangTidy := flag_ofNode root isFlagOf_clangTidy

end Root

theorem eq_of_describes {root : Node} {p q : Project} (hp : root.Describes p)
    (hq : root.Describes q) : p = q := by
  cases p
  cases q
  rw [mk.injEq]
  exact ⟨hp.rootPath.trans hq.rootPath.symm, hp.buildDir.trans hq.buildDir.symm,
    hp.importProject.trans hq.importProject.symm, hp.platform.trans hq.platform.symm,
    hp.analyzeAllVsConfigs.trans hq.analyzeAllVsConfigs.symm,
    hp.clangAnalyzer.trans hq.clangAnalyzer.symm,
    hp.clangTidy.trans hq.clangTidy.symm, hp.includeDirs.trans hq.includeDirs.symm,
    hp.defines.trans hq.defines.symm,
    hp.undefines.trans hq.undefines.symm, hp.checkPaths.trans hq.checkPaths.symm,
    hp.excludedPaths.trans hq.excludedPaths.symm, hp.libraries.trans hq.libraries.symm,
    hp.addons.trans hq.addons.symm, hp.tags.trans hq.tags.symm,
    hp.suppressions.trans hq.suppressions.symm⟩

/-- A document whose first element is a root element is read as the one project that this element
describes. -/
theorem exists_describes_of_find? {nodes : List Node} {root : Node}
    (hfind : nodes.find? (·.name?.isSome) = some root) (hname : root.name? = some "project") :
    ∃ p, ofDocument nodes = .parsed ⟨p, root.attribute? "version"⟩ ∧ root.Describes p ∧
      (∀ q, root.Describes q → q = p) ∧
      ∀ s, check (checkedText s) = .ok () → readDocument (dropMark s) = .ok nodes →
        parse s = .parsed ⟨p, root.attribute? "version"⟩ := by
  have hread : ofDocument nodes = .parsed ⟨ofNode root, root.attribute? "version"⟩ := by
    have hroot : (root.name? == some rootElement) = true := beq_iff_eq.mpr hname
    rw [ofDocument, hfind]
    exact if_pos hroot
  have hdescribes := describes_ofNode root
  refine ⟨ofNode root, hread, hdescribes, fun q hq ↦ eq_of_describes hq hdescribes,
    fun s hcheck hnodes ↦ ?_⟩
  rw [parse_of_read hcheck hnodes, hread]

/-- A root element with children that come twice, say nothing, or are out of place. -/
def repetitive : Node :=
  .element "project" [("version", "2")] [
    .text "name",
    .element "ignore" [] [.element "path" [("name", "i")] [], .element "path" [] []],
    .element "root" [("name", "a")] [], .element "root" [("name", "")] [],
    .element "exclude" [] [.element "dir" [("name", "d")] [], .element "path" [("name", "")] []],
    .element "builddir" [] [.text "b"], .element "builddir" [] [],
    .element "analyze-all-vs-configs" [] [.text "TRUE"], .element "analyze-all-vs-configs" [] [],
    .element "addons" [] [.element "addon" [] [],
      .element "addon" [] [.text "m", .element "addon" [] [.text "n"], .text "o"]],
    .element "ignore" [] [.element "path" [("name", "j")] []],
    .element "tools" [] [.element "tool" [] [.text "clang-tidy"],
      .element "tool" [] [.text "clang-analyzer "]],
    .element "suppressions" [] [.element "suppression" [("lineNumber", " +7 ")] [.text "e"],
      .element "suppression" [("symbolName", "s")] []]]

theorem exists_describes_repetitive :
    ([.text "x", repetitive, repetitive].find? (·.name?.isSome) = some repetitive ∧
      repetitive.name? = some "project") ∧
    ∃ p, ofDocument [.text "x", repetitive, repetitive] = .parsed ⟨p, some "2"⟩ ∧
      repetitive.Describes p ∧
      p = {
        rootPath := "a", analyzeAllVsConfigs := false, clangTidy := true
        excludedPaths := ["i", "", "j"], addons := ["", "mo"]
        suppressions :=
          [{ errorId := "e", lineNumber := .integer 7 }, { errorId := "", symbolName := "s" }] } := by
  have hfind : [.text "x", repetitive, repetitive].find? (·.name?.isSome) = some repetitive := rfl
  have hname : repetitive.name? = some "project" := rfl
  obtain ⟨p, hp, hdescribes, -⟩ := exists_describes_of_find? hfind hname
  refine ⟨⟨hfind, hname⟩, p, hp, hdescribes, ?_⟩
  rw [eq_of_describes hdescribes (describes_ofNode repetitive)]
  decide +kernel

end Project
end AnalysisProject
