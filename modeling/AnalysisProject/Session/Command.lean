import AnalysisProject.Session.Basic

namespace AnalysisProject

namespace Session

inductive Query
  | filename
  | text (field : TextField)
  | flag (field : FlagField)
  | list (field : ListField)
  | suppressions
  | addonsAndTools
  | baseDirectory
  | project

inductive Command
  | setFilename (s : Text)
  | setText (field : TextField) (s : Text)
  | setFlag (field : FlagField) (b : Bool)
  | setList (field : ListField) (values : List Text)
  | setSuppressions (values : List Suppression)
  | clear
  | load (filename : Option Text)
  | save (filename : Option Text)
  | read (filename : Option Text)
  | write (filename : Option Text)
  | ask (query : Query)

inductive Answer
  | nothing
  | text (s : Text)
  | flag (b : Bool)
  | list (values : List Text)
  | suppressions (values : List Suppression)
  | project (p : Project)

def answer (s : Session) : Query → Answer
  | .filename => .text s.filename
  | .text field => .text (s.project.text field)
  | .flag field => .flag (s.flag field)
  | .list field => .list (s.list field)
  | .suppressions => .suppressions s.project.suppressions
  | .addonsAndTools => .list s.addonsAndTools
  | .baseDirectory => .text s.baseDirectory.text
  | .project => .project s.project

namespace Outcome

def map {α β : Type} (f : α → β) (o : Outcome α) : Outcome β := { o with result := o.result.map f }

def quiet (s : Session) (files : FileTable) (a : Answer) : Outcome Answer := ⟨s, files, [], .ok a⟩

end Outcome

def perform (s : Session) (files : FileTable) : Command → Outcome Answer
  | .setFilename name => .quiet { s with filename := name } files .nothing
  | .setText field t => .quiet { s with project := s.project.setText t field } files .nothing
  | .setFlag field b => .quiet { s with project := s.project.setFlag b field } files .nothing
  | .setList field values =>
    .quiet { s with project := s.project.setList values field } files .nothing
  | .setSuppressions values =>
    .quiet { s with project := { s.project with suppressions := values } } files .nothing
  | .clear => .quiet s.clear files .nothing
  | .load filename => (s.load files filename).map fun () ↦ .nothing
  | .save filename => (s.save files filename).map fun () ↦ .nothing
  | .read filename => (s.read files filename).map .flag
  | .write filename => (s.write files filename).map .flag
  | .ask query => .quiet s files (s.answer query)

end Session
end AnalysisProject
