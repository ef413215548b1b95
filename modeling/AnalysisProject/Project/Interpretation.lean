import AnalysisProject.Markup.Tree
import AnalysisProject.Project.Layout
import AnalysisProject.Project.LineNumber

namespace AnalysisProject

open Markup

namespace Suppression

def ofNode (node : Node) : Suppression where
  errorId := node.content
  fileName := (node.attribute? Layout.Suppressions.fileNameAttribute).getD []
  lineNumber := LineNumber.ofAttribute (node.attribute? Layout.Suppressions.lineNumberAttribute)
  symbolName := (node.attribute? Layout.Suppressions.symbolNameAttribute).getD []

end Suppression

namespace Layout

def items (name : Text) (container : Node) : List Node :=
  container.elements.filter fun node ↦ node.name? == some name

namespace ListEntry

/-- The value of an item; without the attribute there is none. -/
def value? (e : ListEntry) (item : Node) : Option Text :=
  match e.style with
  | .attribute name => item.attribute? name
  | .content => some item.content

def values (e : ListEntry) (container : Node) : List Text :=
  (items e.item container).filterMap e.value?

end ListEntry

inductive Role
  | scalar (s : Scalar)
  | list (e : ListEntry)
  | suppressions
  | tools
  deriving DecidableEq

namespace Role

def ofName? (name : Text) : Option Role :=
  match Scalar.all.find? (·.element == name) with
  | some s => some (scalar s)
  | none =>
    if name == Suppressions.container then some suppressions
    else if name == Tools.container then some tools
    else (ListEntry.ofContainer? name).map list

end Role
end Layout

namespace Project

open Layout

def takeScalar (p : Project) (node : Node) : Scalar → Project
  | .rootPath =>
    match node.attribute? nameAttribute with
    | some s => if s.isEmpty then p else { p with rootPath := s }
    | none => p
  | .buildDir => { p with buildDir := node.content }
  | .platform => { p with platform := node.content }
  | .importProject => { p with importProject := node.content }
  | .analyzeAllVsConfigs =>
    if node.content.isEmpty then p else { p with analyzeAllVsConfigs := node.content == "true" }

def takeTool (p : Project) (tool : Text) : Project :=
  if tool == Tools.clangAnalyzer then { p with clangAnalyzer := true }
  else if tool == Tools.clangTidy then { p with clangTidy := true }
  else p

def takeRole (p : Project) (node : Node) : Role → Project
  | .scalar s => p.takeScalar node s
  | .list e => p.append (e.values node) e.field
  | .suppressions =>
    { p with
      suppressions := p.suppressions ++ (items Suppressions.item node).map Suppression.ofNode }
  | .tools => (items Tools.item node).foldl (fun p item ↦ p.takeTool item.content) p

def takeNode (p : Project) (node : Node) : Project :=
  match node.name?.bind Role.ofName? with
  | some role => p.takeRole node role
  | none => p

def ofNode (root : Node) : Project := root.elements.foldl takeNode {}

end Project
end AnalysisProject
