import AnalysisProject.Project.Basic

namespace AnalysisProject

namespace Layout

def rootElement : Text := "project"

def versionAttribute : Text := "version"

def nameAttribute : Text := "name"

def version : Text := "1"

inductive Scalar
  | rootPath
  | buildDir
  | platform
  | importProject
  | analyzeAllVsConfigs
  deriving DecidableEq

namespace Scalar

def all : List Scalar := [rootPath, buildDir, platform, importProject, analyzeAllVsConfigs]

def element : Scalar → Text
  | rootPath => "root"
  | buildDir => "builddir"
  | platform => "platform"
  | importProject => "importproject"
  | analyzeAllVsConfigs => "analyze-all-vs-configs"

/-- The attribute that holds the value, where it is not the text of the element. -/
def attribute? : Scalar → Option Text
  | rootPath => some nameAttribute
  | _ => none

def name : Scalar → Text
  | rootPath => "rootPath"
  | buildDir => "buildDir"
  | platform => "platform"
  | importProject => "importProject"
  | analyzeAllVsConfigs => "analyzeAllVsConfigs"

end Scalar

inductive ItemStyle
  | attribute (name : Text)
  | content
  deriving DecidableEq

/-- The elements of a list. A legacy entry is understood and never written. -/
structure ListEntry where
  field : ListField
  container : Text
  item : Text
  style : ItemStyle
  legacy : Bool := false
  deriving DecidableEq

namespace ListEntry

def canonical : ListField → ListEntry
  | .includeDirs => ⟨.includeDirs, "includedir", "dir", .attribute nameAttribute, false⟩
  | .defines => ⟨.defines, "defines", "define", .attribute nameAttribute, false⟩
  | .undefines => ⟨.undefines, "undefines", "undefine", .content, false⟩
  | .checkPaths => ⟨.checkPaths, "paths", "dir", .attribute nameAttribute, false⟩
  | .excludedPaths => ⟨.excludedPaths, "exclude", "path", .attribute nameAttribute, false⟩
  | .libraries => ⟨.libraries, "libraries", "library", .content, false⟩
  | .addons => ⟨.addons, "addons", "addon", .content, false⟩
  | .tags => ⟨.tags, "tags", "tag", .content, false⟩

def ignored : ListEntry := ⟨.excludedPaths, "ignore", "path", .attribute nameAttribute, true⟩

def all : List ListEntry :=
  [canonical .includeDirs, canonical .defines, canonical .undefines, canonical .checkPaths,
    canonical .excludedPaths, ignored, canonical .libraries, canonical .addons, canonical .tags]

def ofContainer? (name : Text) : Option ListEntry := all.find? (·.container == name)

def ofFieldName? (name : Text) : Option ListEntry :=
  all.find? fun e ↦ e.field.name == name && !e.legacy

def missingMessage (field : Text) : Text :=
  Text.join ["No canonical element is defined for list field '", field, "'"]

end ListEntry

namespace Suppressions

def container : Text := "suppressions"

def item : Text := "suppression"

def fileNameAttribute : Text := "fileName"

def lineNumberAttribute : Text := "lineNumber"

def symbolNameAttribute : Text := "symbolName"

end Suppressions

namespace Tools

def container : Text := "tools"

def item : Text := "tool"

def clangAnalyzer : Text := "clang-analyzer"

def clangTidy : Text := "clang-tidy"

end Tools

inductive Section
  | scalar (s : Scalar)
  | list (field : ListField)
  | suppressions
  | tools
  deriving DecidableEq

namespace Section

def order : List Section :=
  [scalar .rootPath, scalar .buildDir, scalar .platform, scalar .importProject,
    scalar .analyzeAllVsConfigs, list .includeDirs, list .defines, list .undefines,
    list .checkPaths, list .excludedPaths, list .libraries,
    suppressions, list .addons, tools, list .tags]

end Section
end Layout

namespace Project

def tools (p : Project) : List Text :=
  (if p.clangAnalyzer then [Layout.Tools.clangAnalyzer] else [])
    ++ if p.clangTidy then [Layout.Tools.clangTidy] else []

end Project
end AnalysisProject
