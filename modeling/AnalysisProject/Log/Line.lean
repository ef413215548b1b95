import AnalysisProject.Value.Json

namespace AnalysisProject

namespace Log

inductive Level
  | debug
  | info
  | warn
  | error
  deriving DecidableEq

namespace Level

def name : Level → Text
  | debug => "debug"
  | info => "info"
  | warn => "warn"
  | error => "error"

end Level

structure Data where
  ofFields ::
  fields : List (Text × Value)

def Data.close (key : Text) (data : Data) : Data :=
  .ofFields (Value.setField key (.enclosing 0) data.fields)

/-- What stands for the time in every line; the time itself belongs to the outer layer. -/
def timestamp : Text := "T"

def head (level : Level) (component event : Text) : List (Text × Text) :=
  [("timestamp", timestamp), ("level", level.name), ("component", component), ("event", event)]

def entry (level : Level) (component event : Text) (data : Option Data) : List (Text × Value) :=
  Value.ofTexts (head level component event)
    ++ match data with
      | none => []
      | some data => [("data", .record data.fields)]

/-- What is said of an entry that cannot be written. -/
def substitute (level : Level) (component event : Text) (reason : Json.Unwritable) :
    List (Text × Text) :=
  let rest : List (Text × Text) :=
    [("serializationError", reason.message), ("originalData", "[unserializable]")]
  head level component event ++ rest

def body (level : Level) (component event : Text) (data : Option Data) : Text :=
  match Value.jsonRecord (entry level component event data) with
  | .ok s => s
  | .error reason => Json.texts (substitute level component event reason)

def line (level : Level) (component event : Text) (data : Option Data) : Text :=
  body level component event data ++ "\n"

end Log

structure Logger where
  component : Text
  debugMode : Bool := false

namespace Logger

def write (l : Logger) (level : Log.Level) (event : Text) (data : Option Log.Data) : List Text :=
  if level = .debug && !l.debugMode then [] else [Log.line level l.component event data]

end Logger
end AnalysisProject
