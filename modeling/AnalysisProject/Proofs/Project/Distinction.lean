import AnalysisProject.Proofs.Markup.Distinction
import AnalysisProject.Proofs.Project.Adoption

namespace AnalysisProject

open CodeUnit Markup Layout

theorem LineNumber.isValid_stored (n : Number) : isValid (stored n) = isValid n := by
  by_cases h : isValid n = true
  · rw [stored_of_isValid h]
  · rw [stored_of_not_isValid h, Bool.eq_false_iff.mpr h]
    rfl

theorem Suppression.attributes_stored (s : Suppression) : s.stored.attributes = s.attributes := by
  have hline : s.stored.lineNumber = LineNumber.stored s.lineNumber := rfl
  rw [attributes, attributes, hline, LineNumber.isValid_stored]
  by_cases h : LineNumber.isValid s.lineNumber = true
  · rw [LineNumber.stored_of_isValid h, if_pos h]
    rfl
  · rw [if_neg h, if_neg h]
    rfl

namespace Project

theorem toNode_stored (p : Project) : p.stored.toNode = p.toNode := by
  have hsections (s : Section) : p.stored.sectionNodes s = p.sectionNodes s := by
    cases s with
    | scalar s => cases s <;> rfl
    | list field => cases field <;> rfl
    | suppressions =>
      refine congrArg (container Suppressions.container)
        ((List.map_map ..).trans (List.map_congr_left fun s _ ↦ ?_))
      exact congrArg (leaf Suppressions.item · s.errorId) s.attributes_stored
    | tools => rfl
  rw [toNode, toNode, funext hsections]

theorem toNode_eq_toNode_iff {p q : Project} : p.toNode = q.toNode ↔ p.stored = q.stored := by
  constructor
  · intro h
    rw [← ofNode_spread (fun _ ↦ []) p, ← ofNode_spread (fun _ ↦ []) q, h]
  · intro h
    rw [← p.toNode_stored, ← q.toNode_stored, h]

/-- Where the unit of indentation begins no tag, the document keeps all of a project that a document
can hold. -/
theorem render_eq_render_iff {unit : Text} (hu : less ∉ unit) (p q : Project) :
    p.render unit = q.render unit ↔ p.stored = q.stored := by
  rw [← toNode_eq_toNode_iff]
  constructor
  · intro h
    rw [render_eq_document, render_eq_document, document, document] at h
    have hspell := (List.cons.inj (List.append_cancel_left (List.cons.inj h).2)).2
    have hgap (depth : Nat) : less ∉ Node.gapOf unit depth := by
      intro hm
      rcases Node.mem_gapOf unit hm with he | hm
      · exact absurd he (by decide)
      · exact hu hm
    exact (p.toNode_isSound.spell_inj hgap q.toNode_isSound hspell).1
  · intro h
    rw [render, render, h]

/-- A carriage return is kept apart from a line feed, zero and a line that no document can hold are
not. -/
theorem render_eq_and_ne :
    let unit : Text := " >&"
    let first : Project :=
      { buildDir := "a\rb", suppressions := [{ errorId := "x", lineNumber := .integer 0 }] }
    let second : Project :=
      { buildDir := "a\rb", suppressions := [{ errorId := "x", lineNumber := .integer 2147483648 }] }
    let third : Project := { buildDir := "a\nb", suppressions := [{ errorId := "x" }] }
    less ∉ unit ∧ first.render unit = second.render unit ∧ first.render unit ≠ third.render unit :=
  have hu : less ∉ (" >&" : Text) := by decide
  ⟨hu, (render_eq_render_iff hu _ _).mpr (by decide),
    mt (render_eq_render_iff hu _ _).mp (by decide)⟩

end Project
end AnalysisProject
