import AnalysisProject.Number.Shortest

namespace AnalysisProject

namespace LineNumber

def largest : Int := 2147483647

/-- The number of a suppression that is bound to no line. -/
def unset : Number := .integer (-1)

def isValid : Number → Bool
  | .integer n => 0 < n && n ≤ largest
  | _ => false

end LineNumber

structure Suppression where
  errorId : Text
  fileName : Text := []
  lineNumber : Number := LineNumber.unset
  symbolName : Text := []
  deriving DecidableEq

structure Project where
  rootPath : Text := []
  buildDir : Text := []
  importProject : Text := []
  platform : Text := []
  analyzeAllVsConfigs : Bool := true
  clangAnalyzer : Bool := false
  clangTidy : Bool := false
  includeDirs : List Text := []
  defines : List Text := []
  undefines : List Text := []
  checkPaths : List Text := []
  excludedPaths : List Text := []
  libraries : List Text := []
  addons : List Text := []
  tags : List Text := []
  suppressions : List Suppression := []
  deriving DecidableEq

inductive TextField
  | rootPath
  | buildDir
  | importProject
  | platform
  deriving DecidableEq

inductive FlagField
  | analyzeAllVsConfigs
  | clangAnalyzer
  | clangTidy
  deriving DecidableEq

inductive ListField
  | includeDirs
  | defines
  | undefines
  | checkPaths
  | excludedPaths
  | libraries
  | addons
  | tags
  deriving DecidableEq

namespace TextField

def all : List TextField := [rootPath, buildDir, importProject, platform]

def name : TextField → Text
  | rootPath => "rootPath"
  | buildDir => "buildDir"
  | importProject => "importProject"
  | platform => "platform"

end TextField

namespace FlagField

def all : List FlagField := [analyzeAllVsConfigs, clangAnalyzer, clangTidy]

def name : FlagField → Text
  | analyzeAllVsConfigs => "analyzeAllVsConfigs"
  | clangAnalyzer => "clangAnalyzer"
  | clangTidy => "clangTidy"

end FlagField

namespace ListField

def all : List ListField :=
  [includeDirs, defines, undefines, checkPaths, excludedPaths, libraries, addons, tags]

def name : ListField → Text
  | includeDirs => "includeDirs"
  | defines => "defines"
  | undefines => "undefines"
  | checkPaths => "checkPaths"
  | excludedPaths => "excludedPaths"
  | libraries => "libraries"
  | addons => "addons"
  | tags => "tags"

end ListField

namespace Project

def text (p : Project) : TextField → Text
  | .rootPath => p.rootPath
  | .buildDir => p.buildDir
  | .importProject => p.importProject
  | .platform => p.platform

def setText (p : Project) (s : Text) : TextField → Project
  | .rootPath => { p with rootPath := s }
  | .buildDir => { p with buildDir := s }
  | .importProject => { p with importProject := s }
  | .platform => { p with platform := s }

def flag (p : Project) : FlagField → Bool
  | .analyzeAllVsConfigs => p.analyzeAllVsConfigs
  | .clangAnalyzer => p.clangAnalyzer
  | .clangTidy => p.clangTidy

def setFlag (p : Project) (b : Bool) : FlagField → Project
  | .analyzeAllVsConfigs => { p with analyzeAllVsConfigs := b }
  | .clangAnalyzer => { p with clangAnalyzer := b }
  | .clangTidy => { p with clangTidy := b }

def list (p : Project) : ListField → List Text
  | .includeDirs => p.includeDirs
  | .defines => p.defines
  | .undefines => p.undefines
  | .checkPaths => p.checkPaths
  | .excludedPaths => p.excludedPaths
  | .libraries => p.libraries
  | .addons => p.addons
  | .tags => p.tags

def setList (p : Project) (values : List Text) : ListField → Project
  | .includeDirs => { p with includeDirs := values }
  | .defines => { p with defines := values }
  | .undefines => { p with undefines := values }
  | .checkPaths => { p with checkPaths := values }
  | .excludedPaths => { p with excludedPaths := values }
  | .libraries => { p with libraries := values }
  | .addons => { p with addons := values }
  | .tags => { p with tags := values }

def append (p : Project) (values : List Text) (field : ListField) : Project :=
  p.setList (p.list field ++ values) field

end Project
end AnalysisProject
