import AnalysisProject.Markup.Printer
import AnalysisProject.Project.Layout
import AnalysisProject.Text.Blank

namespace AnalysisProject

open Markup Layout

def leaf (name : Text) (attributes : Attributes) (s : Text) : Node :=
  .element name attributes (if s.isEmpty then [] else [.text s])

namespace Suppression

def attributes (s : Suppression) : Attributes :=
  (if s.fileName.isEmpty then [] else [(Suppressions.fileNameAttribute, s.fileName)])
    ++ (if LineNumber.isValid
      s.lineNumber then [(Suppressions.lineNumberAttribute, s.lineNumber.text)] else [])
    ++ if s.symbolName.isEmpty then [] else [(Suppressions.symbolNameAttribute, s.symbolName)]

def toNode (s : Suppression) : Node := leaf Suppressions.item s.attributes s.errorId

end Suppression

namespace Layout.ListEntry

def itemNode (e : ListEntry) (value : Text) : Node :=
  match e.style with
  | .attribute name => .element e.item [(name, value)] []
  | .content => leaf e.item [] value

end Layout.ListEntry

namespace Project

def container (name : Text) (items : List Node) : List Node :=
  if items.isEmpty then [] else [.element name [] items]

def scalarNodes (p : Project) : Scalar → List Node
  | .rootPath =>
    if p.rootPath.isEmpty then []
    else [.element Scalar.rootPath.element [(nameAttribute, p.rootPath)] []]
  | .buildDir => textNodes .buildDir p.buildDir
  | .platform => textNodes .platform p.platform
  | .importProject => textNodes .importProject p.importProject
  | .analyzeAllVsConfigs =>
    [leaf Scalar.analyzeAllVsConfigs.element [] (if p.analyzeAllVsConfigs then "true" else "false")]
where
  textNodes (s : Scalar) (value : Text) : List Node :=
    if value.isEmpty then [] else [leaf s.element [] value]

def sectionNodes (p : Project) : Section → List Node
  | .scalar s => p.scalarNodes s
  | .list field =>
    let e := ListEntry.canonical field
    container e.container ((p.list field).map e.itemNode)
  | .suppressions => container Suppressions.container (p.suppressions.map Suppression.toNode)
  | .tools => container Tools.container (p.tools.map (leaf Tools.item []))

def toNode (p : Project) : Node :=
  .element rootElement [(versionAttribute, version)] (Section.order.flatMap p.sectionNodes)

def declaration : Text := "<?xml version=\"1.0\" encoding=\"UTF-8\"?>"

def defaultUnit : Text := "  "

/-- The canonical document, with a byte-order mark, the declaration and a line feed at the end. -/
def render (unit : Text) (p : Project) : Text :=
  Text.join [[CodeUnit.byteOrderMark], declaration, "\n", (p.toNode.renderTop unit).trim, "\n"]

end Project
end AnalysisProject
