import Mathlib.Data.List.DropRight
import AnalysisProject.Proofs.Fold
import AnalysisProject.Proofs.Project.Fields
import AnalysisProject.Proofs.Session.Effect
import AnalysisProject.Proofs.Session.Run

namespace AnalysisProject

namespace Session.Command

def text? (field : TextField) : Command → Option Text
  | setText other s => if field = other then some s else none
  | _ => none

def flag? (field : FlagField) : Command → Option Bool
  | setFlag other b => if field = other then some b else none
  | _ => none

def list? (field : ListField) : Command → Option (List Text)
  | setList other values => if field = other then some values else none
  | _ => none

def suppressions? : Command → Option (List Suppression)
  | setSuppressions values => some values
  | _ => none

/-- The name that a command gives the file. An empty one counts only where the name is all that is
set. -/
def name? : Command → Option Text
  | setFilename name => some name
  | load filename | save filename | read filename | write filename => filename.filter (!·.isEmpty)
  | _ => none

def apply (p : Project) : Command → Project
  | setText field s => p.setText s field
  | setFlag field b => p.setFlag b field
  | setList field values => p.setList values field
  | setSuppressions values => { p with suppressions := values }
  | _ => p

variable (p : Project) (c : Command)

end Session.Command

def Event.command? : Event → Option Session.Command
  | .perform c => some c
  | _ => none

namespace Step

variable (step : Step)

def given {α : Type} (f : Session.Command → Option α) : Option α := step.event.command?.bind f

/-- The project to which a step resets the session. Loading does that as soon as the file can be
read: without a project in it, everything is back to the defaults. -/
def base? : Option Project :=
  match step.event with
  | .perform .clear => some {}
  | .perform (.load _) | .perform (.read _) =>
    match step.world.files.readDocument
        ((step.given Session.Command.name?).getD step.world.session.filename) with
    | .error _ => none
    | .ok text =>
      match Project.parse text with
      | .parsed p => some p.project
      | .failed _ | .fault _ => some {}
  | _ => none

end Step

namespace Session

def lastBase (history : List Step) : Project := latest Step.base? history {}

def sinceReset (history : List Step) : List Step := history.rtakeWhile (·.base?.isNone)

/-- A session that began without a project under `name` is as its history says. -/
structure Reflects (history : List Step) (name : Text) (s : Session) : Prop where
  filename : s.filename = latest (·.given Command.name?) history name
  text : ∀ field, s.project.text field =
    latest (·.given (Command.text? field)) (sinceReset history) ((lastBase history).text field)
  flag : ∀ field, s.project.flag field =
    latest (·.given (Command.flag? field)) (sinceReset history) ((lastBase history).flag field)
  list : ∀ field, s.project.list field =
    latest (·.given (Command.list? field)) (sinceReset history) ((lastBase history).list field)
  suppressions : s.project.suppressions =
    latest (·.given Command.suppressions?) (sinceReset history) (lastBase history).suppressions

theorem Reflects.nil (name : Text)
    (settings : Settings) : Reflects [] name { filename := name, settings } where
  filename := rfl
  text _ := rfl
  flag _ := rfl
  list _ := rfl
  suppressions := rfl

theorem Reflects.unique {history : List Step} {name : Text} {s s' : Session}
    (h : Reflects history name s) (h' : Reflects history name s') : s.filename = s'.filename ∧
      s.project = s'.project :=
  ⟨h.filename.trans h'.filename.symm,
    Project.eq_of_fields (fun field ↦ (h.text field).trans (h'.text field).symm)
      (fun field ↦ (h.flag field).trans (h'.flag field).symm) (fun field ↦
        (h.list field).trans (h'.list field).symm)
      (h.suppressions.trans h'.suppressions.symm)⟩

end Session
end AnalysisProject
