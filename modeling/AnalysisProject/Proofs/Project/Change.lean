import AnalysisProject.Proofs.Project.Document
import AnalysisProject.Proofs.Project.LineNumber

namespace AnalysisProject

open CodeUnit Markup Layout

def Suppression.mapTexts (f : Text → Text) (s : Suppression) : Suppression :=
  { s with errorId := f s.errorId, fileName := f s.fileName, symbolName := f s.symbolName }

def Project.mapTexts (f : Text → Text) (p : Project) : Project :=
  { p with
    rootPath := f p.rootPath
    buildDir := f p.buildDir
    importProject := f p.importProject
    platform := f p.platform
    includeDirs := p.includeDirs.map f
    defines := p.defines.map f
    undefines := p.undefines.map f
    checkPaths := p.checkPaths.map f
    excludedPaths := p.excludedPaths.map f
    libraries := p.libraries.map f
    addons := p.addons.map f
    tags := p.tags.map f
    suppressions := p.suppressions.map (Suppression.mapTexts f) }

theorem Project.list_mapTexts (f : Text → Text) (p : Project) (field : ListField) :
    (p.mapTexts f).list field = (p.list field).map f := by
  cases field <;> rfl

namespace Text.Seamless

variable {f : Text → Text} (hf : Seamless f)

include hf

theorem leaf (name : Text) (attributes : Attributes) (s : Text) :
    (leaf name attributes s).mapTexts f = AnalysisProject.leaf name
    (attributes.mapValues f) (f s) := by
  rw [AnalysisProject.leaf, AnalysisProject.leaf, hf.isEmpty_eq, Node.mapTexts]
  cases s.isEmpty with
  | true => rfl
  | false =>
    rw [if_neg Bool.false_ne_true, if_neg Bool.false_ne_true, List.map_singleton, Node.mapTexts]

omit hf in
theorem container (name : Text) (items : List Node) :
    (Project.container name items).map (Node.mapTexts f) = Project.container name
    (items.map (Node.mapTexts f)) := by
  rw [Project.container, Project.container, List.isEmpty_map]
  cases items.isEmpty with
  | true => rfl
  | false =>
    rw [if_neg Bool.false_ne_true, if_neg Bool.false_ne_true, List.map_singleton,
      Node.mapTexts]; rfl

theorem suppression_attributes (s : Suppression) :
    s.attributes.mapValues f = (s.mapTexts f).attributes := by
  have hfile := hf.isEmpty_eq s.fileName
  have hsymbol := hf.isEmpty_eq s.symbolName
  rw [Suppression.attributes, Suppression.attributes, Suppression.mapTexts, hfile, hsymbol,
    Attributes.mapValues, List.map_append, List.map_append]
  refine congr (congrArg _ (congr (congrArg _ ?_) ?_)) ?_
  · cases s.fileName.isEmpty <;> rfl
  · by_cases h : LineNumber.isValid s.lineNumber = true
    · have htext := hf.eq_self fun c hc ↦ LineNumber.isSeam_of_mem_text h hc
      rw [if_pos h]
      exact congrArg (fun value ↦ [(Suppressions.lineNumberAttribute, value)]) htext
    · rw [if_neg h, List.map_nil]
  · cases s.symbolName.isEmpty <;> rfl

theorem itemNode (field : ListField) (value : Text) :
    ((ListEntry.canonical field).itemNode value).mapTexts f = (ListEntry.canonical field).itemNode
    (f value) := by
  have hattribute (item : Text) : (Node.element item [(nameAttribute, value)] []).mapTexts f =
      .element item [(nameAttribute, f value)] [] := by
    rw [Node.mapTexts]
    rfl
  cases field
  case includeDirs | defines | checkPaths | excludedPaths => exact hattribute _
  case undefines | libraries | addons | tags => exact hf.leaf _ [] value

theorem textNodes (s : Scalar) (value : Text) :
    (Project.scalarNodes.textNodes s value).map (Node.mapTexts f) =
    Project.scalarNodes.textNodes s (f value) := by
  rw [Project.scalarNodes.textNodes, Project.scalarNodes.textNodes, hf.isEmpty_eq]
  cases value.isEmpty with
  | true => rfl
  | false => exact congrArg (fun node ↦ [node]) (hf.leaf _ [] value)

theorem sectionNodes (p : Project) (s : Section) :
    (p.sectionNodes s).map (Node.mapTexts f) = (p.mapTexts f).sectionNodes s := by
  cases s with
  | scalar s =>
    cases s with
    | rootPath =>
      have hempty := hf.isEmpty_eq p.rootPath
      rw [Project.sectionNodes, Project.sectionNodes, Project.scalarNodes, Project.scalarNodes,
        Project.mapTexts, hempty]
      cases p.rootPath.isEmpty with
      | true => rfl
      | false =>
        rw [if_neg Bool.false_ne_true, if_neg Bool.false_ne_true, List.map_singleton, Node.mapTexts]
        rfl
    | buildDir => exact hf.textNodes .buildDir p.buildDir
    | platform => exact hf.textNodes .platform p.platform
    | importProject => exact hf.textNodes .importProject p.importProject
    | analyzeAllVsConfigs =>
      have hflag (b : Bool) :
          f (if b then "true" else "false") = (if b then "true" else "false" : Text) := by
        cases b <;> exact hf.eq_self (by decide)
      refine congrArg (fun node ↦ [node]) ((hf.leaf _ [] _).trans ?_)
      rw [hflag]
      rfl
  | list field =>
    have hitems : ((p.list field).map (ListEntry.canonical field).itemNode).map (Node.mapTexts f) =
        ((p.mapTexts f).list field).map (ListEntry.canonical field).itemNode := by
      rw [Project.list_mapTexts, List.map_map, List.map_map]
      exact List.map_congr_left fun value _ ↦ hf.itemNode field value
    exact (container _ _).trans (congrArg _ hitems)
  | suppressions =>
    have hitems : (p.suppressions.map Suppression.toNode).map (Node.mapTexts f) =
        (p.mapTexts f).suppressions.map Suppression.toNode := by
      rw [Project.mapTexts, List.map_map, List.map_map]
      refine List.map_congr_left fun s _ ↦ (hf.leaf _ s.attributes s.errorId).trans ?_
      rw [hf.suppression_attributes]
      rfl
    exact (container _ _).trans (congrArg _ hitems)
  | tools =>
    have hitems : (p.tools.map (AnalysisProject.leaf Tools.item [])).map (Node.mapTexts f) =
        p.tools.map (AnalysisProject.leaf Tools.item []) := by
      have htools : ∀ tool ∈ p.tools, ∀ c ∈ tool, c.isSeam = true := by
        have hall : ∀ tool ∈ [Tools.clangAnalyzer, Tools.clangTidy], ∀ c ∈ tool, c.isSeam =
          true := by decide
        have hsublist : p.tools.Sublist [Tools.clangAnalyzer, Tools.clangTidy] := by
          rw [Project.tools]
          cases p.clangAnalyzer <;> cases p.clangTidy <;> simp
        exact fun tool hm ↦ hall tool (hsublist.subset hm)
      rw [List.map_map]
      refine List.map_congr_left fun tool hm ↦ (hf.leaf _ [] tool).trans ?_
      rw [hf.eq_self (htools tool hm)]
      rfl
    exact (container _ _).trans (congrArg _ hitems)

theorem toNode (p : Project) : p.toNode.mapTexts f = (p.mapTexts f).toNode := by
  have hversion : f version = version := hf.eq_self (by decide)
  rw [Project.toNode, Project.toNode, Node.mapTexts, List.map_flatMap]
  simp only [hf.sectionNodes, Attributes.mapValues, List.map_cons, List.map_nil, hversion]

theorem document (gap : Nat → Text) (p : Project) :
    f (p.document gap) = (p.mapTexts f).document fun depth ↦ f (gap depth) := by
  have hdeclaration : ∀ c ∈ Project.declaration, c.isSeam = true := by decide
  have hspell := hf.spell gap 0 p.toNode_isSound [CodeUnit.lineFeed] [CodeUnit.lineFeed]
  rw [hf.lineFeed, hf.toNode] at hspell
  rw [Project.document, Project.document, hf.append_left hdeclaration]
  exact congrArg _ hspell

end Text.Seamless
end AnalysisProject
