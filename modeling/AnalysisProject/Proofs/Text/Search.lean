import AnalysisProject.Text.Search
import Mathlib.Data.List.Infix

namespace AnalysisProject.Text

theorem eq_cons_of_startsWith {c : CodeUnit} {s : Text} (h : startsWith [c] s = true) :
    ∃ t, s = c :: t := by
  obtain ⟨t, rfl⟩ := List.isPrefixOf_iff_prefix.mp h
  exact ⟨t, rfl⟩

theorem eq_append_of_splitFirst? {pattern s before after : Text}
    (h : splitFirst? pattern s = some (before, after)) :
    s = before ++ (pattern ++ after) := by
  induction s generalizing before with
  | nil => cases h
  | cons c s ih =>
    rw [splitFirst?] at h
    split at h
    · next hs =>
      obtain ⟨t, ht⟩ := List.isPrefixOf_iff_prefix.mp hs
      simp only [Option.some.injEq, Prod.mk.injEq] at h
      obtain ⟨rfl, rfl⟩ := h
      rw [← ht, List.drop_left, List.nil_append]
    · simp only [Option.map_eq_some_iff, Prod.exists, Prod.mk.injEq] at h
      obtain ⟨b, a, hs, rfl, rfl⟩ := h
      rw [ih hs, List.cons_append]

theorem splitFirst?_eq_none_iff {pattern : Text} (hp : pattern ≠ []) (s : Text) :
    splitFirst? pattern s = none ↔ ¬ pattern <:+: s := by
  induction s with
  | nil => exact iff_of_true rfl fun h ↦ hp (List.infix_nil.mp h)
  | cons c s ih =>
    rw [splitFirst?, List.infix_cons_iff, not_or, ← ih, startsWith, ← List.isPrefixOf_iff_prefix,
      Bool.not_eq_true]
    cases pattern.isPrefixOf (c :: s) with
    | true =>
      exact iff_of_false (by rw [if_pos rfl]; exact Option.some_ne_none _) fun h ↦
        Bool.false_ne_true h.1.symm
    | false => rw [if_neg Bool.false_ne_true, Option.map_eq_none_iff, and_iff_right rfl]

theorem occursIn_eq_false {pattern s : Text} {c : CodeUnit} (hc : c ∈ pattern) (hs : c ∉ s) :
    occursIn pattern s = false := by
  have hnone := (splitFirst?_eq_none_iff (List.ne_nil_of_mem hc) s).mpr fun h ↦ hs (h.subset hc)
  rw [occursIn, hnone]
  rfl

/-- A pattern does not begin in the text before it, if that text has none and the last unit of the
pattern comes in it only once. -/
theorem startsWith_append_eq_false {init : Text} {last : CodeUnit} (hl : last ∉ init) {s : Text}
    (hne : s ≠ []) (h : ¬ init ++ [last] <:+: s) (rest : Text) :
    startsWith (init ++ [last]) (s ++ (init ++ [last] ++ rest)) = false := by
  rw [startsWith, Bool.eq_false_iff, ne_eq, List.isPrefixOf_iff_prefix]
  intro hp
  rcases List.prefix_or_prefix_of_prefix hp (List.prefix_append s _) with hs | ⟨u, hu⟩
  · exact h hs.isInfix
  · rw [← hu, List.append_assoc, List.prefix_append_right_inj] at hp
    rcases List.eq_nil_or_concat u with rfl | ⟨v, e, rfl⟩
    · rw [List.append_nil] at hu
      exact h (hu ▸ List.infix_refl s)
    · -- The overlap ends with the last unit of the pattern, but within the pattern.
      rw [List.concat_eq_append, ← List.append_assoc] at hu
      obtain ⟨hinit, he⟩ := List.append_inj' hu rfl
      have hlt : v.length + 1 ≤ init.length := by
        have := List.length_pos_iff.mpr hne
        rw [← hinit, List.length_append]
        omega
      rw [List.concat_eq_append, ← List.append_assoc, ← List.append_assoc, hinit,
        List.append_assoc] at hp
      have hv : v ++ [e] <+: init :=
        List.prefix_of_prefix_length_le hp (List.prefix_append init _) (by simpa using hlt)
      have hm : e ∈ init := hv.subset (List.mem_append_right v (List.mem_cons_self ..))
      exact hl ((List.cons.inj he).1 ▸ hm)

theorem splitFirst?_append {init : Text} {last : CodeUnit} (hl : last ∉ init) {s : Text}
    (h : ¬ init ++ [last] <:+: s)
    (rest : Text) : splitFirst? (init ++ [last]) (s ++ (init ++ [last] ++ rest)) =
      some (s, rest) := by
  induction s with
  | nil =>
    have hs : startsWith (init ++ [last]) (init ++ [last] ++ rest) = true :=
      List.isPrefixOf_iff_prefix.mpr (List.prefix_append _ _)
    have hd : (init ++ [last] ++ rest).drop (init ++ [last]).length = rest := List.drop_left
    obtain ⟨c, t, hc⟩ :=
      List.exists_cons_of_ne_nil
        (List.append_ne_nil_of_right_ne_nil init (List.cons_ne_nil last []))
    rw [hc] at hs hd ⊢
    rw [List.nil_append, List.cons_append, splitFirst?, ← List.cons_append, if_pos hs, hd]
  | cons d s ih =>
    have hs : ¬ init ++ [last] <:+: s := fun hi ↦ h (List.infix_cons hi)
    have hn := startsWith_append_eq_false hl (List.cons_ne_nil d s) h rest
    rw [List.cons_append] at hn
    rw [List.cons_append, splitFirst?, hn, if_neg Bool.false_ne_true, ih hs, Option.map_some]

theorem splitFirst?_append_left {c : CodeUnit} {before : Text} (h : c ∉ before) (pattern s : Text) :
    splitFirst? (c :: pattern) (before ++ s) =
      (splitFirst? (c :: pattern) s).map fun (first, rest) ↦ (before ++ first, rest) := by
  induction before with
  | nil =>
    rw [List.nil_append]
    cases splitFirst? (c :: pattern) s <;> rfl
  | cons d before ih =>
    obtain ⟨hd, hb⟩ := List.ne_and_not_mem_of_not_mem_cons h
    have hs : startsWith (c :: pattern) (d :: (before ++ s)) = false := by
      rw [startsWith, List.isPrefixOf_cons_cons, beq_eq_false_iff_ne.mpr hd, Bool.false_and]
    rw [List.cons_append, splitFirst?, hs, if_neg Bool.false_ne_true, ih hb, Option.map_map]
    rfl

theorem after?_append {init : Text} {last : CodeUnit} (hl : last ∉ init) {s : Text}
    (h : ¬ init ++ [last] <:+: s)
    (rest : Text) : after? (init ++ [last]) (s ++ (init ++ [last] ++ rest)) = some rest := by
  rw [after?, splitFirst?_append hl h, Option.map_some]

theorem afterOrEnd_append {init : Text} {last : CodeUnit} (hl : last ∉ init) {s : Text}
    (h : ¬ init ++ [last] <:+: s)
    (rest : Text) : afterOrEnd (init ++ [last]) (s ++ (init ++ [last] ++ rest)) = rest := by
  rw [afterOrEnd, after?_append hl h, Option.getD_some]

theorem afterOrEnd_suffix (pattern s : Text) : afterOrEnd pattern s <:+ s := by
  rw [afterOrEnd, after?]
  cases h : splitFirst? pattern s with
  | none => exact List.nil_suffix
  | some split =>
    have hs := eq_append_of_splitFirst? h
    exact ⟨split.1 ++ pattern, by rw [hs, List.append_assoc]; rfl⟩

end AnalysisProject.Text
