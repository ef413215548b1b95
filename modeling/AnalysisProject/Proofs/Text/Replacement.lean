import AnalysisProject.Text.Search

namespace AnalysisProject.Text

variable {forms : List Text} {value : Text}

theorem replaceFrom_eq_drop (forms : List Text) (value : Text) (n : Nat) (s : Text) :
    replaceFrom forms value n s = replaceAll forms value (s.drop n) := by
  induction s generalizing n with
  | nil => simp [replaceAll, replaceFrom]
  | cons c s ih =>
    cases n with
    | zero => rfl
    | succ n => simpa only [replaceFrom, List.drop_succ_cons] using ih n

theorem countFrom_eq_drop (forms : List Text) (n : Nat) (s : Text) :
    countFrom forms n s = countAll forms (s.drop n) := by
  induction s generalizing n with
  | nil => simp [countAll, countFrom]
  | cons c s ih =>
    cases n with
    | zero => rfl
    | succ n => simpa only [countFrom, List.drop_succ_cons] using ih n

theorem drop_length_pred_cons (form rest : Text) (h : form ≠ []) :
    ∃ c s, form ++ rest = c :: s ∧ s.drop (form.length - 1) = rest := by
  cases form with
  | nil => exact absurd rfl h
  | cons c form => exact ⟨c, form ++ rest, rfl, by simp⟩

theorem replaceAll_form_append {form rest : Text} (h : formAt? forms (form ++ rest) = some form)
    (hf : form ≠ []) :
    replaceAll forms value (form ++ rest) = value ++ replaceAll forms value rest := by
  obtain ⟨c, s, hs, hd⟩ := drop_length_pred_cons form rest hf
  rw [hs] at h
  rw [hs, replaceAll, replaceFrom, h]
  simp only [replaceFrom_eq_drop, hd]

theorem countAll_form_append {form rest : Text} (h : formAt? forms (form ++ rest) = some form)
    (hf : form ≠ []) :
    countAll forms (form ++ rest) = countAll forms rest + 1 := by
  obtain ⟨c, s, hs, hd⟩ := drop_length_pred_cons form rest hf
  rw [hs] at h
  rw [hs, countAll, countFrom, h]
  simp only [countFrom_eq_drop, hd]

theorem replaceAll_cons {c : CodeUnit} {s : Text} (h : formAt? forms (c :: s) = none) :
    replaceAll forms value (c :: s) = c :: replaceAll forms value s := by
  rw [replaceAll, replaceFrom, h]
  rfl

theorem countAll_cons {c : CodeUnit} {s : Text} (h : formAt? forms (c :: s) = none) :
    countAll forms (c :: s) = countAll forms s := by
  rw [countAll, countFrom, h]
  rfl

def BeginWith (c : CodeUnit) (forms : List Text) : Prop := ∀ form ∈ forms, form.head? = some c

instance (c : CodeUnit) (forms : List Text) : Decidable (BeginWith c forms) :=
  inferInstanceAs (Decidable (∀ form ∈ forms, form.head? = some c))

theorem BeginWith.formAt?_cons {c d : CodeUnit} (h : BeginWith c forms) (hd : d ≠ c) (s : Text) :
    formAt? forms (d :: s) = none := by
  refine List.find?_eq_none.mpr fun form hf ↦ ?_
  obtain ⟨t, rfl⟩ := List.head?_eq_some_iff.mp (h form hf)
  simp [startsWith, Ne.symm hd]

theorem BeginWith.replaceAll_append {c : CodeUnit} (h : BeginWith c forms) {s : Text} (hs : c ∉ s)
    (rest : Text) :
    replaceAll forms value (s ++ rest) = s ++ replaceAll forms value rest := by
  induction s with
  | nil => rfl
  | cons d s ih =>
    obtain ⟨hd, hs⟩ := not_or.mp (mt List.mem_cons.mpr hs)
    rw [List.cons_append, replaceAll_cons (h.formAt?_cons (Ne.symm hd) _), ih hs, List.cons_append]

theorem BeginWith.countAll_append {c : CodeUnit} (h : BeginWith c forms) {s : Text} (hs : c ∉ s)
    (rest : Text) :
    countAll forms (s ++ rest) = countAll forms rest := by
  induction s with
  | nil => rfl
  | cons d s ih =>
    obtain ⟨hd, hs⟩ := not_or.mp (mt List.mem_cons.mpr hs)
    rw [List.cons_append, countAll_cons (h.formAt?_cons (Ne.symm hd) _), ih hs]

end AnalysisProject.Text
