import AnalysisProject.Proofs.Session.Effect
import AnalysisProject.Proofs.Session.Run

namespace AnalysisProject

structure Writing where
  filename : Text
  text? : Option Text

namespace Writing

/-- The document is complete, and there is a place for it. -/
structure GoesTo (w : Writing) (files : FileTable) (p : AbsolutePath) (text : Text) : Prop where
  text : w.text? = some text
  path : validatePath w.filename = .ok p
  allowed : files.allow .write p = .ok ()

variable (w : Writing) (files : FileTable)

def into : Except ProjectError FileTable :=
  match w.text? with
  | none => .error (.cannotRender w.filename .noList)
  | some text => files.writeDocument w.filename text

variable {w files}

theorem GoesTo.into_eq {p : AbsolutePath} {text : Text} (h : w.GoesTo files p text) :
    w.into files = .ok (files.put p.text (Utf8.encode text)) := by
  rw [into, h.text]
  simp only [FileTable.writeDocument, FileTable.writeText, h.path, FileTable.write, h.allowed]
  rfl

theorem into_eq_error (h : ∀ p text, ¬ w.GoesTo files p text) :
    ∃ e, w.into files = .error e ∧ e.kind = .write := by
  rw [into]
  cases ht : w.text? with
  | none => exact ⟨_, rfl, rfl⟩
  | some text =>
    simp only [FileTable.writeDocument, FileTable.writeText]
    cases hp : validatePath w.filename with
    | error e => exact ⟨_, rfl, rfl⟩
    | ok p =>
      simp only [FileTable.write]
      cases ha : files.allow .write p with
      | error e => exact ⟨_, rfl, rfl⟩
      | ok _ => exact absurd ⟨ht, hp, ha⟩ (h p text)

end Writing

namespace Event

def done : Event → Session.Answer
  | .perform (.write _) => .flag true
  | _ => .nothing

def refusal (event : Event) (e : ProjectError) : Except Raised Session.Answer :=
  match event with
  | .perform (.write _) => .ok (.flag false)
  | _ => .error (.error e)

end Event

namespace Step

variable (step : Step)

def writing? : Option Writing :=
  match step.event with
  | .perform (.save filename) | .perform (.write filename) =>
    some ⟨(filename.filter (!·.isEmpty)).getD step.world.session.filename,
      some (step.world.session.project.render step.world.session.settings.indentBy)⟩
  | .writeDocument filename text => some ⟨filename, some text⟩
  | .save filename unit d => some ⟨filename, d.project?.map (·.render unit)⟩
  | _ => none

def replacement? : Option FileTable :=
  match step.event with
  | .replaceFiles files => some files
  | _ => none

def settle : Except ProjectError FileTable → FileTable × Except Raised Session.Answer
  | .error e => (step.world.files, step.event.refusal e)
  | .ok files => (files, .ok step.event.done)

theorem project_of_writing {w : Writing} (h : step.writing? = some w) :
    step.outcome.session.project = step.world.session.project := by
  obtain ⟨⟨s, files⟩, event⟩ := step
  cases event with
  | perform c =>
    cases c with
    | save filename => exact s.project_save files filename
    | write filename => exact s.project_write files filename
    | _ => cases h
  | writeDocument | save => exact congrArg Session.project (World.session_store _ _)
  | _ => cases h

theorem settle_of_writing {w : Writing} (h : step.writing? = some w) :
    (step.outcome.files, step.outcome.result) = step.settle (w.into step.world.files) := by
  obtain ⟨⟨s, files⟩, event⟩ := step
  cases event with
  | perform c =>
    cases c with
    | save filename =>
      cases h
      simp only [outcome, World.outcome, Session.perform, Session.Outcome.map, Session.save_eq,
        Session.filename_retarget, Writing.into]
      generalize files.writeDocument _ _ = r
      cases r <;> rfl
    | write filename =>
      cases h
      simp only [outcome, World.outcome, Session.perform, Session.Outcome.map, Session.write,
        Session.Outcome.report, Session.save_eq, Session.filename_retarget, Writing.into]
      generalize files.writeDocument _ _ = r
      cases r <;> rfl
    | _ => cases h
  | writeDocument filename text =>
    cases h
    simp only [outcome, World.outcome, World.store, Writing.into]
    generalize files.writeDocument filename text = r
    cases r <;> rfl
  | save filename unit d =>
    cases h
    simp only [outcome, World.outcome, World.store, FileTable.save, Draft.render, Writing.into]
    cases d.project? with
    | none => rfl
    | some p =>
      simp only [Option.map_some]
      generalize files.writeDocument filename (p.render unit) = r
      cases r <;> rfl
  | _ => cases h

theorem files_of_not_writing (h : step.writing? = none) :
    step.outcome.files = step.replacement?.getD step.world.files := by
  obtain ⟨⟨s, files⟩, event⟩ := step
  cases event with
  | perform c =>
    cases c with
    | load filename => exact s.files_load files filename
    | read filename => exact (Session.files_report _ _).trans (s.files_load files filename)
    | save | write => cases h
    | _ => rfl
  | writeDocument | save => cases h
  | _ => rfl

/-- What a step may do to the files. -/
structure ChangesWhole : Prop where
  idle : step.writing? = none → step.replacement? = none → step.outcome.files = step.world.files
  /-- A document for which there is a place goes there with all of its text, and nowhere else. -/
  written : ∀ w p text, step.writing? = some w → w.GoesTo step.world.files p text →
    step.outcome.result = .ok step.event.done ∧
      step.outcome.session.project = step.world.session.project ∧
      step.outcome.files.directories = step.world.files.directories ∧
      ∀ path, step.outcome.files.content? path =
        if path = p.text then some (Utf8.encode text) else step.world.files.content? path
  /-- Any other one is refused with an error of its own kind, and everything stays as it was. -/
  refused : ∀ w, step.writing? = some w → (∀ p text, ¬ w.GoesTo step.world.files p text) →
    (∃ e, step.outcome.result = step.event.refusal e ∧ e.kind = .write) ∧
      step.outcome.session.project = step.world.session.project ∧
      step.outcome.files = step.world.files

theorem changesWhole : step.ChangesWhole where
  idle hw hr := by rw [step.files_of_not_writing hw, hr, Option.getD_none]
  written w p text hw hgo := by
    have hsettle := step.settle_of_writing hw
    rw [hgo.into_eq, settle, Prod.mk.injEq] at hsettle
    refine ⟨hsettle.2, step.project_of_writing hw, by rw [hsettle.1]; rfl, fun path ↦ ?_⟩
    rw [hsettle.1]
    split
    · next h => rw [h, FileTable.content?_put_self]
    · next h => exact FileTable.content?_put_of_ne _ h _
  refused w hw hgo := by
    have hsettle := step.settle_of_writing hw
    obtain ⟨e, he, hkind⟩ := Writing.into_eq_error hgo
    rw [he, settle, Prod.mk.injEq] at hsettle
    exact ⟨⟨e, hsettle.2, hkind⟩, step.project_of_writing hw, hsettle.1⟩

def isDone : Bool :=
  match step.outcome.result with
  | .ok (.flag b) => b
  | .ok _ => true
  | .error _ => false

def put? (path : Text) : Option (Option Bytes) :=
  match step.writing? with
  | none => step.replacement?.map (·.content? path)
  | some w =>
    if step.isDone && (validatePath w.filename).toOption.any (path == ·.text) then
      some (w.text?.map Utf8.encode) else none

theorem isDone_of_done (h : step.outcome.result = .ok step.event.done) : step.isDone = true := by
  rw [isDone, h]
  obtain ⟨world, event⟩ := step
  cases event with
  | perform c => cases c <;> rfl
  | _ => rfl

theorem isDone_of_refusal {e : ProjectError} (h : step.outcome.result = step.event.refusal e) :
    step.isDone = false := by
  rw [isDone, h]
  obtain ⟨world, event⟩ := step
  cases event with
  | perform c => cases c <;> rfl
  | _ => rfl

theorem content_outcome (path : Text) :
    step.outcome.files.content? path = (step.put? path).getD (step.world.files.content? path) := by
  rw [put?]
  cases hw : step.writing? with
  | none =>
    rw [step.files_of_not_writing hw]
    cases step.replacement? <;> rfl
  | some w =>
    by_cases hgo : ∃ p text, w.GoesTo step.world.files p text
    · obtain ⟨p, text, hgo⟩ := hgo
      obtain ⟨hdone, -, -, hcontent⟩ := step.changesWhole.written w p text hw hgo
      simp only [hcontent, step.isDone_of_done hdone, hgo.path, hgo.text, Except.toOption,
        Option.any_some, Bool.true_and, beq_iff_eq, Option.map_some]
      split <;> rfl
    · obtain ⟨⟨e, he, -⟩, -, hfiles⟩ :=
        step.changesWhole.refused w hw (not_exists.mp <| not_exists.mp hgo ·)
      rw [hfiles, step.isDone_of_refusal he]
      rfl

theorem directories_outcome :
    step.outcome.files.directories =
      (step.replacement?.map FileTable.directories).getD step.world.files.directories := by
  cases hw : step.writing? with
  | none =>
    rw [step.files_of_not_writing hw]
    cases step.replacement? <;> rfl
  | some w =>
    have hr : step.replacement? = none := by
      obtain ⟨world, event⟩ := step
      cases event with
      | replaceFiles => cases hw
      | _ => rfl
    rw [hr]
    by_cases hgo : ∃ p text, w.GoesTo step.world.files p text
    · obtain ⟨p, text, hgo⟩ := hgo
      exact (step.changesWhole.written w p text hw hgo).2.2.1
    · exact congrArg _ (step.changesWhole.refused w hw (not_exists.mp <| not_exists.mp hgo ·)).2.2

end Step

namespace World

/-- No step leaves a document half written. After any run a file holds what was put there last, and
a run that replaces no files leaves the directories as they were. -/
theorem files_run (w : World) (events : List Event) :
    (∀ step ∈ w.history events, step.ChangesWhole) ∧
      (w.run events).files.directories =
        latest (·.replacement?.map FileTable.directories) (w.history events) w.files.directories ∧
      ∀ path, (w.run events).files.content? path =
        latest (·.put? path) (w.history events) (w.files.content? path) :=
  ⟨fun step _ ↦ step.changesWhole,
    view_run (·.files.directories) _ (fun step ↦ step.directories_outcome) w events, fun path ↦
      view_run (·.files.content? path) _ (fun step ↦ step.content_outcome path) w events⟩

/-- Six documents that cannot be written, each for a reason of its own, and one that can. -/
def thwarted : List Event := [
  .save "a.xml" "\t" { Draft.ofProject {} with suppressions := none },
  .writeDocument "" "s",
  .save [97, 0] "\t" (.ofProject {}),
  .perform (.save (some "/work")),
  .perform (.write (some "b/c.xml")),
  .perform (.write (some "f/c.xml")),
  .perform (.write (some "a.xml"))]

def obstructed : World :=
  ⟨{ settings := { indentBy := "\t" } }, ⟨FileTable.standing, [("/work/proj/f", [1])]⟩⟩

theorem files_run_thwarted :
    (obstructed.history thwarted).map Step.isDone =
      [false, false, false, false, false, false, true] ∧
      (obstructed.run thwarted).files.directories = FileTable.standing ∧
      (obstructed.run thwarted).files.content? "/work/proj/a.xml" =
        some (Utf8.encode (Project.render "\t" {})) ∧
      (obstructed.run thwarted).files.content? "/work/proj/f" = some [1] := by
  obtain ⟨-, hdirectories, hcontent⟩ := files_run obstructed thwarted
  refine ⟨?_, hdirectories.trans ?_, (hcontent _).trans ?_, (hcontent _).trans ?_⟩
  all_goals decide +kernel

end World
end AnalysisProject
