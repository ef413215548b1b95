import AnalysisProject.Project.Parse

namespace AnalysisProject.Project

open Markup

/-- The part of a text that the check looks at. -/
def checkedText (s : Text) : Text := dropMark (dropMark s)

variable {s : Text}

theorem parse_of_fault {fault : Fault} (h : check (checkedText s) = .error (.fault fault)) :
    parse s = .fault fault := by
  rw [checkedText] at h
  simp only [parse, h]

theorem parse_of_refused {refusal : Refusal}
    (h : check (checkedText s) = .error (.refused refusal)) :
    parse s = .failed (.malformed (checkedText s) refusal) := by
  rw [checkedText] at h
  simp only [parse, h, checkedText]

theorem parse_of_unreadable (h : check (checkedText s) = .ok ()) {failure : ReadFailure}
    (hr : readDocument (dropMark s) = .error failure) : parse s =
      .failed (.unreadable failure) := by
  rw [checkedText] at h
  simp only [parse, h, hr]

theorem parse_of_read (h : check (checkedText s) = .ok ()) {nodes : List Node}
    (hr : readDocument (dropMark s) = .ok nodes) : parse s = ofDocument nodes := by
  rw [checkedText] at h
  simp only [parse, h, hr]

theorem exists_of_parse_eq_parsed {q : Parsed} (h : parse s = .parsed q) :
    ∃ nodes root, readDocument (dropMark s) = .ok nodes ∧ root ∈ nodes ∧ q.project =
      ofNode root := by
  cases hc : check (checkedText s) with
  | error failure =>
    cases failure with
    | fault fault => cases h.symm.trans (parse_of_fault hc)
    | refused refusal => cases h.symm.trans (parse_of_refused hc)
  | ok _ =>
    cases hr : readDocument (dropMark s) with
    | error failure => cases h.symm.trans (parse_of_unreadable hc hr)
    | ok nodes =>
      rw [parse_of_read hc hr, ofDocument] at h
      split at h
      · cases h
      · next root hfind =>
        split at h
        · cases h
          exact ⟨nodes, root, rfl, List.mem_of_find?_eq_some hfind, rfl⟩
        · cases h

end AnalysisProject.Project
