namespace AnalysisProject

variable {ε α β γ : Type}

theorem exists_of_bind_eq_ok {e : Except ε α} {f : α → Except ε β} {b : β} (h : e >>= f = .ok b) :
    ∃ a, e = .ok a ∧ f a = .ok b := by
  cases e with
  | error => cases h
  | ok a => exact ⟨a, rfl, h⟩

theorem exists_of_map_eq_ok {e : Except ε α} {f : α → β} {b : β} (h : e.map f = .ok b) :
    ∃ a, e = .ok a ∧ f a = b := by
  cases e with
  | error => cases h
  | ok a => exact ⟨a, rfl, Except.ok.inj h⟩

theorem exists_error_map_iff {x : Except ε α} {f : α → β} :
    (∃ e, x.map f = .error e) ↔ ∃ e, x = .error e := by
  cases x <;> simp [Except.map]

theorem exists_error_bind_iff {x : Except ε α} {y : Except ε β} {f : α → β → γ} :
    (∃ e, (do let a ← x; let b ← y; return f a b) = .error e) ↔ (∃ e, x = .error e) ∨ ∃ e,
      y = .error e := by
  cases x <;> cases y <;> simp [bind, Except.bind, pure, Except.pure]

end AnalysisProject
