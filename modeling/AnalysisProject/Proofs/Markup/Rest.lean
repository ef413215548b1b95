import AnalysisProject.Markup.Check
import AnalysisProject.Proofs.Text.Search

namespace AnalysisProject

open CodeUnit

namespace Markup

theorem spanTag_rest_suffix (outside : CodeUnit → CodeUnit) (q : Option CodeUnit) (s : Text) :
    (spanTag outside q s).rest <:+ s := by
  fun_induction spanTag outside q s with
  | case1 => exact List.nil_suffix
  | case2 q c s ih => exact ih.trans (List.suffix_cons c s)
  | case3 => exact List.suffix_refl _
  | case4 c s _ _ ih => exact ih.trans (List.suffix_cons c s)
  | case5 c s _ _ ih => exact ih.trans (List.suffix_cons c s)

theorem spanTag_rest_cases (outside : CodeUnit → CodeUnit) (q : Option CodeUnit) (s : Text) :
    (spanTag outside q s).rest = [] ∨ ∃ t, (spanTag outside q s).rest = greater :: t := by
  fun_induction spanTag outside q s with
  | case1 => exact .inl rfl
  | case2 _ _ _ ih => exact ih
  | case3 s => exact .inr ⟨s, rfl⟩
  | case4 _ _ _ _ ih => exact ih
  | case5 _ _ _ _ ih => exact ih

namespace Check

theorem skipContent_xmlSpace {c : CodeUnit} (h : c.isXmlSpace = true) (isAfterRoot : Bool)
    (s : Text) :
    skipContent isAfterRoot (c :: s) = skipContent isAfterRoot s := by
  have hl : c ≠ less := by rintro rfl; cases h
  have ha : c ≠ ampersand := by rintro rfl; cases h
  rw [skipContent, if_neg hl, if_neg ha, h, Bool.not_true, Bool.and_false,
    if_neg Bool.false_ne_true]

theorem skipProlog_xmlSpace {c : CodeUnit} (h : c.isXmlSpace = true) (isStart : Bool) (s : Text) :
    skipProlog isStart (c :: s) = skipProlog false s := by
  have hl : c ≠ less := by rintro rfl; cases h
  rw [skipProlog, if_neg hl, if_pos h]

theorem skipContent_exclamation (isAfterRoot : Bool) (s : Text) :
    skipContent isAfterRoot (less :: exclamation :: s) =
      skipContent isAfterRoot (skipExclamation s) := by
  have hs : Text.startsWith "!" (exclamation :: s) = true := rfl
  rw [skipContent, if_pos rfl, if_pos hs, List.drop_succ_cons, List.drop_zero]

theorem skipContent_question (isAfterRoot : Bool) (s : Text) :
    skipContent isAfterRoot (less :: question :: s) =
      skipContent isAfterRoot (Text.afterOrEnd "?>" (question :: s)) := by
  have hx : Text.startsWith "!" (question :: s) = false := rfl
  have hq : Text.startsWith "?" (question :: s) = true := rfl
  rw [skipContent, if_pos rfl, hx, if_neg Bool.false_ne_true, if_pos hq]

theorem skipProlog_exclamation (isStart : Bool) (s : Text) :
    skipProlog isStart (less :: exclamation :: s) = skipProlog false (skipExclamation s) := by
  have hs : Text.startsWith "!" (exclamation :: s) = true := rfl
  rw [skipProlog, if_pos rfl, if_pos hs, List.drop_succ_cons, List.drop_zero]

theorem skipBrackets_suffix (depth : Nat) (s : Text) : skipBrackets depth s <:+ s := by
  fun_induction skipBrackets depth s with
  | case1 => exact List.suffix_refl _
  | case2 depth s ih => exact ih.trans (List.suffix_cons _ s)
  | case3 => exact List.suffix_cons _ _
  | case4 depth s _ _ ih => exact ih.trans (List.suffix_cons _ s)
  | case5 depth c s _ _ ih => exact ih.trans (List.suffix_cons c s)

theorem skipExclamation_suffix (s : Text) : skipExclamation s <:+ s := by
  rw [skipExclamation]
  split
  · exact (Text.afterOrEnd_suffix _ _).trans (List.drop_suffix _ s)
  · split
    · exact (skipBrackets_suffix _ _).trans (List.drop_suffix _ s)
    · split
      · exact (Text.afterOrEnd_suffix _ _).trans (List.drop_suffix _ s)
      · exact List.suffix_refl s

theorem skipNamed_suffix {n : Nat} {s rest : Text} (h : skipNamed n s = some rest) :
    rest <:+ s := by
  fun_induction skipNamed n s with
  | case1 => cases h; exact List.suffix_refl _
  | case2 n c s _ ih => exact (ih h).trans (List.suffix_cons c s)
  | case3 => cases h; exact List.suffix_cons _ _
  | case4 => cases h

theorem skipNumeric_suffix {p : CodeUnit → Bool} {s rest : Text} (h : skipNumeric p s = some rest) :
    rest <:+ s := by
  rw [skipNumeric] at h
  split at h
  · cases h
    exact (List.drop_suffix _ _).trans (List.dropWhile_suffix _)
  · contradiction

theorem skipReference?_suffix {s rest : Text} (h : skipReference? s = some rest) : rest <:+ s := by
  rw [skipReference?] at h
  split at h
  · contradiction
  · split at h
    · exact (skipNumeric_suffix h).trans (List.drop_suffix _ s)
    · split at h
      · exact (skipNumeric_suffix h).trans (List.drop_suffix _ s)
      · exact skipNamed_suffix h

theorem skipContent_suffix {isAfterRoot : Bool} {s rest : Text}
    (h : skipContent isAfterRoot s = .ok (some rest)) :
    rest <:+ s := by
  fun_induction skipContent isAfterRoot s with
  | case1 => cases h
  | case2 s _ _ ih =>
    have hs := (skipExclamation_suffix (s.drop 1)).trans (List.drop_suffix 1 s)
    exact (ih h).trans (hs.trans (List.suffix_cons _ s))
  | case3 s _ _ _ ih =>
    exact (ih h).trans ((Text.afterOrEnd_suffix _ s).trans (List.suffix_cons _ s))
  | case4 =>
    cases h
    exact List.suffix_cons _ _
  | case5 s t ht _ _ ih =>
    exact (ih h).trans ((skipReference?_suffix ht).trans (List.suffix_cons _ s))
  | case6 => cases h
  | case7 => cases h
  | case8 c s _ _ _ ih => exact (ih h).trans (List.suffix_cons c s)

theorem skipProlog_suffix {isStart : Bool} {s rest : Text}
    (h : skipProlog isStart s = .ok (some rest)) :
    rest <:+ s := by
  fun_induction skipProlog isStart s with
  | case1 => cases h
  | case2 _ s _ _ ih =>
    have hs := (skipExclamation_suffix (s.drop 1)).trans (List.drop_suffix 1 s)
    exact (ih h).trans (hs.trans (List.suffix_cons _ s))
  | case3 => cases h
  | case4 _ s _ _ _ _ ih =>
    have hs := (Text.afterOrEnd_suffix "?>" (s.drop 1)).trans (List.drop_suffix 1 s)
    exact (ih h).trans (hs.trans (List.suffix_cons _ s))
  | case5 =>
    cases h
    exact List.suffix_cons _ _
  | case6 _ c s _ _ ih => exact (ih h).trans (List.suffix_cons c s)
  | case7 => cases h

namespace Tag

theorem afterName_ofName_suffix (isClosing : Bool) (s : Text) :
    (ofName isClosing (s.takeWhile isNameUnit) (s.dropWhile isNameUnit)).afterName <:+ s := by
  have hs : s.takeWhile isNameUnit ++ s.dropWhile isNameUnit = s := List.takeWhile_append_dropWhile
  rw [ofName]
  split
  · refine ⟨(s.takeWhile isNameUnit).take ((s.takeWhile isNameUnit).length - 1), ?_⟩
    rw [← List.append_assoc, List.take_append_drop, hs]
  · exact ⟨s.takeWhile isNameUnit, hs⟩

theorem afterName_suffix (s : Text) : (read s).afterName <:+ s := by
  rw [read]
  split
  · exact (afterName_ofName_suffix _ _).trans (List.drop_suffix 1 s)
  · exact afterName_ofName_suffix _ s

theorem next_suffix (s : Text) : (read s).next <:+ s :=
  (List.drop_suffix 1 _).trans ((spanTag_rest_suffix _ _ _).trans (afterName_suffix s))

end Tag
end Check
end Markup
end AnalysisProject
