import AnalysisProject.Text.Basic

namespace AnalysisProject

variable {α β σ : Type}

/-- The value that the last element which gives one gives, and `b` if there is none. -/
def latest (f : α → Option β) (l : List α) (b : β) : β := (l.filterMap f).getLast?.getD b

theorem latest_cons (f : α → Option β) (a : α) (l : List α) (b : β) :
    latest f (a :: l) b = latest f l ((f a).getD b) := by
  cases h : f a with
  | none => rw [latest, latest, List.filterMap_cons_none h, Option.getD_none]
  | some c =>
    rw [latest, latest, List.filterMap_cons_some h, List.getLast?_cons, Option.getD_some,
      Option.getD_some]

section Views

variable {step : σ → α → σ} {p : α → Bool}

/-- Every step keeps what is seen, but for the elements that satisfy `p`: these may give it a new
value. -/
theorem foldl_latest (view : σ → β) (f : α → Option β)
    (h : ∀ s a, view (step s a) = if p a then (f a).getD (view s) else view s)
    (l : List α) (s : σ) :
    view (l.foldl step s) = latest f (l.filter p) (view s) := by
  induction l generalizing s with
  | nil => rfl
  | cons a l ih =>
    rw [List.foldl_cons, ih, h, List.filter_cons]
    split
    · rw [latest_cons]
    · rfl

theorem foldl_collect (view : σ → List β) (f : α → List β)
    (h : ∀ s a, view (step s a) = if p a then view s ++ f a else view s) (l : List α) (s : σ) :
    view (l.foldl step s) = view s ++ (l.filter p).flatMap f := by
  induction l generalizing s with
  | nil => exact (List.append_nil _).symm
  | cons a l ih =>
    rw [List.foldl_cons, ih, h, List.filter_cons]
    split
    · rw [List.flatMap_cons, List.append_assoc]
    · rfl

theorem foldl_any (view : σ → Bool) (f : α → Bool)
    (h : ∀ s a, view (step s a) = if p a then view s || f a else view s) (l : List α) (s : σ) :
    view (l.foldl step s) = (view s || (l.filter p).any f) := by
  induction l generalizing s with
  | nil => exact (Bool.or_false _).symm
  | cons a l ih =>
    rw [List.foldl_cons, ih, h, List.filter_cons]
    split
    · rw [List.any_cons, Bool.or_assoc]
    · rfl

end Views
end AnalysisProject
