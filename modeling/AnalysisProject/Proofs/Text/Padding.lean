import AnalysisProject.Proofs.Markup.Acceptance
import Mathlib.Data.List.TakeWhile

namespace AnalysisProject

open CodeUnit

namespace Text

/-- The text is `core` with white space around it. -/
def IsPadded (s core : Text) : Prop :=
  ∃ before after, (∀ c ∈ before, c.isBlank = true) ∧ (∀ c ∈ after, c.isBlank = true) ∧
    s = before ++ (core ++ after)

theorem isPadded_trim (s : Text) : s.IsPadded s.trim := by
  refine ⟨s.takeWhile isBlank, (s.trimStart.reverse.takeWhile isBlank).reverse, fun c ↦
    List.mem_takeWhile_imp,
    fun c hc ↦ List.mem_takeWhile_imp (List.mem_reverse.mp hc), ?_⟩
  rw [trim, trimEnd, ← List.reverse_append, List.takeWhile_append_dropWhile,
    List.reverse_reverse, trimStart, List.takeWhile_append_dropWhile]

theorem IsPadded.trim_eq {s core : Text} (h : s.IsPadded core)
    (hc : ∀ c ∈ core, c.isBlank = false) :
    s.trim = core := by
  obtain ⟨before, after, hbefore, hafter, rfl⟩ := h
  have hend : (core ++ after).trimEnd = core := by
    rw [trimEnd, List.reverse_append, List.dropWhile_append_of_pos fun c hm ↦
      hafter c (List.mem_reverse.mp hm),
      dropWhile_isBlank_eq_self fun c hm ↦ hc c (List.mem_reverse.mp hm), List.reverse_reverse]
  rw [trim, trimStart, List.dropWhile_append_of_pos hbefore]
  cases core with
  | nil =>
    have hnil : ([] ++ after).dropWhile isBlank = [] := List.dropWhile_eq_nil_iff.mpr hafter
    rw [hnil]
    rfl
  | cons c core =>
    rw [← trimStart, List.cons_append, trimStart_cons (hc c (List.mem_cons_self ..)),
      ← List.cons_append, hend]

end Text
end AnalysisProject
