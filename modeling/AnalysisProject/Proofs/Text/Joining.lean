import AnalysisProject.Text.Basic

namespace AnalysisProject.Text

theorem joinWith_singleton (separator part : Text) : joinWith separator [part] = part := by
  simp [joinWith]

theorem joinWith_cons_cons (separator part next : Text) (parts : List Text) :
    joinWith separator (part :: next :: parts) =
      part ++ (separator ++ joinWith separator (next :: parts)) := by
  simp [joinWith]

theorem joinWith_concat (separator : Text) {parts : List Text} (h : parts ≠ []) (s : Text) :
    joinWith separator (parts ++ [s]) = joinWith separator parts ++ (separator ++ s) := by
  induction parts with
  | nil => exact absurd rfl h
  | cons part parts ih =>
    cases parts with
    | nil => simp [joinWith_cons_cons, joinWith_singleton]
    | cons next parts =>
      have hnext := ih (List.cons_ne_nil next parts)
      simp only [List.cons_append, joinWith_cons_cons] at hnext ⊢
      simp [hnext]

theorem mem_joinWith {separator : Text} {parts : List Text} {c : CodeUnit}
    (h : c ∈ joinWith separator parts) :
    c ∈ separator ∨ ∃ part ∈ parts, c ∈ part := by
  induction parts with
  | nil => exact absurd h List.not_mem_nil
  | cons part parts ih =>
    cases parts with
    | nil =>
      rw [joinWith_singleton] at h
      exact .inr ⟨part, List.mem_cons_self, h⟩
    | cons next parts =>
      simp only [joinWith_cons_cons, List.mem_append] at h
      rcases h with h | h | h
      · exact .inr ⟨part, List.mem_cons_self, h⟩
      · exact .inl h
      · obtain hs | ⟨other, hm, hc⟩ := ih h
        · exact .inl hs
        · exact .inr ⟨other, List.mem_cons_of_mem _ hm, hc⟩

end AnalysisProject.Text
