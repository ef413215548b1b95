import AnalysisProject.Proofs.Markup.Register
import AnalysisProject.Proofs.Project.Parse
import AnalysisProject.Session.Basic

namespace AnalysisProject

open Markup

namespace Project

inductive ParseResult.IsReported : ParseResult → Prop
  | parsed (p : Parsed) : IsReported (.parsed p)
  | failed {failure : ParseFailure} :
      (ProjectError.cannotParse failure).kind = .parse ∨
        (ProjectError.cannotParse failure).kind = .schema →
      IsReported (.failed failure)

theorem isReported_failed (failure : ParseFailure) : ParseResult.IsReported (.failed failure) := by
  refine .failed ?_
  cases failure with
  | malformed _ _ => exact .inl rfl
  | unreadable _ => exact .inl rfl
  | wrongRoot _ => exact .inr rfl

theorem isReported_ofDocument (nodes : List Node) : (ofDocument nodes).IsReported := by
  rw [ofDocument]
  split
  · exact isReported_failed _
  · split
    · exact .parsed _
    · exact isReported_failed _

theorem parse_cases (s : Text) :
    (LosesRegister (checkedText s) ∧ parse s = .fault .registerLost) ∨
      (¬ LosesRegister (checkedText s) ∧ (parse s).IsReported) := by
  have hcheck := check_eq_fault_iff (checkedText s)
  cases hc : check (checkedText s) with
  | error failure =>
    cases failure with
    | fault fault =>
      obtain ⟨rfl, hl⟩ := (hcheck fault).mp hc
      exact .inl ⟨hl, parse_of_fault hc⟩
    | refused refusal =>
      refine .inr ⟨fun hl ↦ ?_, parse_of_refused hc ▸ isReported_failed _⟩
      cases hc.symm.trans ((hcheck _).mpr ⟨rfl, hl⟩)
  | ok _ =>
    refine .inr ⟨fun hl ↦ ?_, ?_⟩
    · cases hc.symm.trans ((hcheck _).mpr ⟨rfl, hl⟩)
    · cases hr : readDocument (dropMark s) with
      | error failure => exact parse_of_unreadable hc hr ▸ isReported_failed _
      | ok nodes => exact parse_of_read hc hr ▸ isReported_ofDocument nodes

theorem not_isReported_fault (fault : Fault) : ¬ ParseResult.IsReported (.fault fault) := nofun

theorem parse_eq_fault_iff (s : Text) (fault : Fault) :
    parse s = .fault fault ↔ fault = .registerLost ∧ LosesRegister (checkedText s) := by
  rcases parse_cases s with ⟨hl, hp⟩ | ⟨hl, hp⟩
  · rw [hp, ParseResult.fault.injEq, and_iff_left hl]
    exact eq_comm
  · exact iff_of_false (fun hf ↦ not_isReported_fault _ (hf ▸ hp)) fun h ↦ hl h.2

end Project

namespace Session

open Project

variable (s : Session) (files : FileTable) (filename : Option Text)

theorem Outcome.report_result (o : Outcome Unit) (event : Text) :
    (∃ answer, (o.report event).result = .ok answer) ∧ (∀ fault, o.result ≠ .error (.fault fault)) ∨
      ∃ fault, (o.report event).result = .error (.fault fault) ∧
        o.result = .error (.fault fault) := by
  rw [Outcome.report]
  split
  · next h => exact .inl ⟨⟨true, rfl⟩, fun fault hf ↦ nomatch h.symm.trans hf⟩
  · next h => exact .inl ⟨⟨false, rfl⟩, fun fault hf ↦ nomatch h.symm.trans hf⟩
  · next fault h => exact .inr ⟨fault, rfl, h⟩

/-- Loading meets a fault exactly where the file can be read and its text makes the check lose its
register. -/
theorem load_result_eq_fault_iff (fault : Fault) :
    (s.load files filename).result = .error (.fault fault) ↔
      fault = .registerLost ∧
        ∃ text, files.readDocument (s.retarget filename).filename = .ok text ∧
          LosesRegister (checkedText text) := by
  rw [load]
  cases files.readDocument (s.retarget filename).filename with
  | error e => exact iff_of_false nofun nofun
  | ok text =>
    simp only [Except.ok.injEq, exists_eq_left']
    rw [← parse_eq_fault_iff]
    cases parse text with
    | parsed p => exact iff_of_false nofun nofun
    | failed failure => exact iff_of_false nofun nofun
    | fault fault' => simp

theorem read_cases :
    (∃ answer, (s.read files filename).result = .ok answer) ∧
        (∀ text, files.readDocument (s.retarget filename).filename = .ok text →
          ¬ LosesRegister (checkedText text)) ∨
      (s.read files filename).result = .error (.fault .registerLost) ∧
        ∃ text, files.readDocument (s.retarget filename).filename = .ok text ∧
          LosesRegister (checkedText text) := by
  rw [read]
  rcases (s.load files filename).report_result "project_read_failed" with ⟨ha, hn⟩ | ⟨fault, hr, hf⟩
  · refine .inl ⟨ha, fun text ht hl ↦ ?_⟩
    exact hn .registerLost ((load_result_eq_fault_iff s files filename _).mpr ⟨rfl, text, ht, hl⟩)
  · obtain ⟨rfl, hl⟩ := (load_result_eq_fault_iff s files filename fault).mp hf
    exact .inr ⟨hr, hl⟩

/-- Every text is read or reported, and every request to read is answered, unless the check of the
text loses its register of attribute names. That fault is raised. -/
theorem isReported_iff_not_losesRegister (text : Text) :
    ((parse text).IsReported ↔ ¬ LosesRegister (checkedText text)) ∧
      (parse text = .fault .registerLost ↔ LosesRegister (checkedText text)) ∧
      ((∃ answer, (s.read files filename).result = .ok answer) ↔
        ¬ ∃ t, files.readDocument (s.retarget filename).filename = .ok t ∧
          LosesRegister (checkedText t)) := by
  refine ⟨?_, ?_, ?_⟩
  · rcases parse_cases text with ⟨hl, hp⟩ | ⟨hl, hp⟩
    · exact iff_of_false (hp ▸ not_isReported_fault _) (not_not_intro hl)
    · exact iff_of_true hp hl
  · rw [parse_eq_fault_iff, and_iff_right rfl]
  · rcases read_cases s files filename with ⟨ha, hn⟩ | ⟨hr, hl⟩
    · exact iff_of_true ha fun ⟨t, ht, hl⟩ ↦ hn t ht hl
    · refine iff_of_false ?_ (not_not_intro hl)
      rintro ⟨answer, ha⟩
      cases ha.symm.trans hr

def lostDocument : Text := "<project hasOwnProperty=\"1\" b=\"2\"/>"

def lostFiles : FileTable := ⟨FileTable.standing, [("/work/proj/a.xml", Utf8.encode lostDocument)]⟩

theorem read_lostDocument :
    parse lostDocument = .fault .registerLost ∧ ¬ (parse lostDocument).IsReported ∧
      (Session.read {} lostFiles (some "a.xml")).result = .error (.fault .registerLost) := by
  have hp : parse lostDocument = .fault .registerLost := by decide +kernel
  have hd : lostFiles.readDocument "a.xml" = .ok lostDocument := rfl
  refine ⟨hp, hp ▸ not_isReported_fault _, ?_⟩
  rcases read_cases {} lostFiles (some "a.xml") with ⟨-, hn⟩ | ⟨hr, -⟩
  · exact absurd ((parse_eq_fault_iff _ _).mp hp).2 (hn lostDocument hd)
  · exact hr

end Session
end AnalysisProject
