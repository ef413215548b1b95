import AnalysisProject.Project.Parse
import AnalysisProject.Storage.FileTable

namespace AnalysisProject

inductive AccessError
  | path (e : PathError)
  | file (e : FileTable.Failure)
  deriving DecidableEq

namespace AccessError

def message : AccessError → Text
  | path e => e.message
  | file e => e.message

end AccessError

inductive ProjectError
  | cannotOpen (filename : Text) (cause : AccessError)
  | cannotParse (failure : Project.ParseFailure)
  | cannotRender (filename : Text) (cause : Fault)
  | cannotWrite (filename : Text) (cause : AccessError)
  deriving DecidableEq

namespace ProjectError

inductive Kind
  | «open»
  | parse
  | schema
  | write
  deriving DecidableEq

namespace Kind

def name : Kind → Text
  | «open» => "open_error"
  | parse => "parse_error"
  | schema => "schema_error"
  | write => "write_error"

end Kind

def kind : ProjectError → Kind
  | cannotOpen _ _ => .open
  | cannotParse (.wrongRoot _) => .schema
  | cannotParse _ => .parse
  | cannotRender _ _ => .write
  | cannotWrite _ _ => .write

def cause? (describe : Fault → Text) : ProjectError → Option Text
  | cannotOpen _ cause => some cause.message
  | cannotParse (.malformed _ _) => none
  | cannotParse (.unreadable (.fault fault)) => some (describe fault)
  | cannotParse (.unreadable failure) => some failure.message
  | cannotParse (.wrongRoot _) => none
  | cannotRender _ cause => some (describe cause)
  | cannotWrite _ cause => some cause.message

def message (describe : Fault → Text) : ProjectError → Text
  | cannotOpen filename _ => Text.join ["Cannot open project file '", filename, "'"]
  | cannotParse (.malformed source refusal) =>
    "Malformed project file: " ++ refusal.flaw.message source
  | cannotParse (.unreadable failure) =>
    "Malformed project file: " ++ ((cannotParse (.unreadable failure)).cause? describe).getD []
  | cannotParse (.wrongRoot _) =>
    Text.join ["Not a project file: expected root element '", Layout.rootElement, "'"]
  | cannotRender filename _ => Text.join ["Cannot serialize project file '", filename, "'"]
  | cannotWrite filename _ => Text.join ["Cannot write project file '", filename, "'"]

def details? (describe : Fault → Text) : ProjectError → Option Text
  | cannotParse (.malformed source refusal) => some (refusal.details source)
  | cannotParse (.unreadable _) => none
  | cannotParse (.wrongRoot none) => some "No root element"
  | cannotParse (.wrongRoot (some name)) => some (Text.join ["Found '", name, "'"])
  | e => e.cause? describe

end ProjectError

/-- What an operation raises: an error that it reports, or a fault that nothing has caught. -/
inductive Raised
  | error (e : ProjectError)
  | fault (f : Fault)
  deriving DecidableEq

end AnalysisProject
