import AnalysisProject.Proofs.Fold
import AnalysisProject.Session.Command

namespace AnalysisProject

structure World where
  session : Session
  files : FileTable

inductive Event
  | perform (c : Session.Command)
  | readDocument (filename : Text)
  | writeDocument (filename s : Text)
  | load (filename : Text)
  | save (filename unit : Text) (d : Draft)
  | replaceFiles (files : FileTable)

namespace World

variable (w : World)

def inspect (r : Except Raised Session.Answer) : Session.Outcome Session.Answer :=
  ⟨w.session, w.files, [], r⟩

def store (r : Except ProjectError FileTable) : Session.Outcome Session.Answer :=
  match r with
  | .error e => ⟨w.session, w.files, [], .error (.error e)⟩
  | .ok files => ⟨w.session, files, [], .ok .nothing⟩

theorem session_store (r : Except ProjectError FileTable) : (w.store r).session = w.session := by
  cases r <;> rfl

def outcome : Event → Session.Outcome Session.Answer
  | .perform c => w.session.perform w.files c
  | .readDocument filename =>
    w.inspect (((w.files.readDocument filename).mapError .error).map .text)
  | .writeDocument filename s => w.store (w.files.writeDocument filename s)
  | .load filename => w.inspect ((w.files.load filename).map fun p ↦ .project p.project)
  | .save filename unit d => w.store (w.files.save filename unit d)
  | .replaceFiles files => ⟨w.session, files, [], .ok .nothing⟩

def after (e : Event) : World := ⟨(w.outcome e).session, (w.outcome e).files⟩

def run (events : List Event) : World := events.foldl after w

end World

structure Step where
  world : World
  event : Event

def Step.outcome (step : Step) : Session.Outcome Session.Answer := step.world.outcome step.event

namespace World

def history (w : World) : List Event → List Step
  | [] => []
  | e :: events => ⟨w, e⟩ :: history (w.after e) events

/-- What is seen of the world after a run is what the last step that gives it anew has given. -/
theorem view_run {α : Type} (view : World → α) (f : Step → Option α)
    (h : ∀ step, view (step.world.after step.event) = (f step).getD (view step.world)) (w : World)
    (events : List Event) :
    view (w.run events) = latest f (w.history events) (view w) := by
  induction events generalizing w with
  | nil => rfl
  | cons e events ih =>
    rw [history, latest_cons, ← h ⟨w, e⟩]
    exact ih (w.after e)

end World
end AnalysisProject
