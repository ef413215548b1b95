import AnalysisProject.Proofs.Text.Joining
import AnalysisProject.Storage.Path
import Mathlib.Data.List.Basic

namespace AnalysisProject

open CodeUnit

namespace Text

/-- An absolute path without dots, two dots or repeated slashes, and without a slash at its end.
Only in the path of the root does nothing follow a slash. -/
structure IsNormalPath (s : Text) : Prop where
  isAbsolute : startsWith "/" s = true
  ne_dot : ∀ part ∈ s.splitOn slash, part ≠ "." ∧ part ≠ ".."
  ne_nil : s ≠ "/" → ∀ part ∈ (s.splitOn slash).tail, part ≠ []
  not_endsIn : s ≠ "/" → s.endsIn slash = false

def IsDirectlyIn (s directory : Text) : Prop :=
  ∃ name, name ≠ [] ∧ slash ∉ name ∧
    s = (if directory = "/" then directory else directory ++ "/") ++ name

theorem pathParts_eq_splitOn (s : Text) : s.pathParts = s.splitOn slash := by
  induction s with
  | nil => rfl
  | cons c s ih =>
    rw [pathParts, List.splitOn_cons_eq_if_modifyHead, ih]
    by_cases hc : c = slash
    · simp [hc]
    · obtain ⟨part, parts, hs⟩ := List.exists_cons_of_ne_nil (List.splitOn_ne_nil slash s)
      simp [hc, hs]

theorem pathParts_append (s t : Text) :
    (s ++ slash :: t).pathParts = s.pathParts ++ t.pathParts := by
  simp only [pathParts_eq_splitOn, List.splitOn_append_cons_self]

theorem mem_of_mem_pathParts {s part : Text} (h : part ∈ s.pathParts) {c : CodeUnit}
    (hc : c ∈ part) :
    c ∈ s ∧ c ≠ slash := by
  induction s generalizing part with
  | nil => simp_all [pathParts]
  | cons d s ih =>
    rw [pathParts] at h
    split at h
    · rcases List.mem_cons.mp h with rfl | h
      · exact absurd hc List.not_mem_nil
      · obtain ⟨hs, hne⟩ := ih h hc
        exact ⟨List.mem_cons_of_mem _ hs, hne⟩
    · next hd =>
      obtain ⟨first, parts, hs⟩ : ∃ first parts, pathParts s = first :: parts :=
        List.exists_cons_of_ne_nil (pathParts_eq_splitOn s ▸ List.splitOn_ne_nil slash s)
      simp only [hs, List.mem_cons] at h ih ⊢
      rcases h with rfl | h
      · rcases List.mem_cons.mp hc with rfl | hc
        · exact ⟨.inl rfl, hd⟩
        · exact (ih (.inl rfl) hc).imp_left .inr
      · exact (ih (.inr h) hc).imp_left .inr

/-- What stands between two slashes of a path in normal form. -/
structure IsSegment (s : Text) : Prop where
  ne_nil : s ≠ []
  ne_dot : s ≠ "."
  ne_dots : s ≠ ".."
  slash_notMem : slash ∉ s

end Text

namespace AbsolutePath

def IsNormal (p : AbsolutePath) : Prop := ∀ s ∈ p.segments, s.IsSegment

variable {segments : List Text}

theorem enter_of_isSegment {s : Text} (h : s.IsSegment) : enter segments s = segments ++ [s] := by
  simp [enter, h.ne_nil, h.ne_dot, h.ne_dots]

theorem mem_enter {part s : Text} (h : s ∈ enter segments part) :
    s ∈ segments ∨ s = part ∧ s ≠ [] ∧ s ≠ "." ∧ s ≠ ".." := by
  simp only [enter] at h
  split at h
  · exact .inl h
  · next hstay =>
    split at h
    · exact .inl (List.dropLast_subset _ h)
    · next hup =>
      rcases List.mem_append.mp h with h | h
      · exact .inl h
      · obtain rfl := List.mem_singleton.mp h
        simp only [Bool.or_eq_true, List.isEmpty_iff, beq_iff_eq, not_or] at hstay hup
        exact .inr ⟨rfl, hstay.1, hstay.2, hup⟩

theorem mem_foldl_enter {parts : List Text} {s : Text} (h : s ∈ parts.foldl enter segments) :
    s ∈ segments ∨ s ∈ parts ∧ s ≠ [] ∧ s ≠ "." ∧ s ≠ ".." := by
  induction parts generalizing segments with
  | nil => exact .inl h
  | cons part parts ih =>
    rcases ih h with h | h
    · exact (mem_enter h).imp_right fun hpart ↦ ⟨List.mem_cons.mpr (.inl hpart.1), hpart.2⟩
    · exact .inr ⟨List.mem_cons_of_mem _ h.1, h.2⟩

/-- A segment of what a text denotes is one of the directory, or a part of the text. -/
theorem mem_resolve {directory : AbsolutePath} {t s : Text}
    (h : s ∈ (directory.resolve t).segments) :
    s ∈ directory.segments ∨ s ∈ t.pathParts ∧ s ≠ [] ∧ s ≠ "." ∧ s ≠ ".." := by
  rcases mem_foldl_enter h with h | h
  · split at h
    · exact absurd h List.not_mem_nil
    · exact .inl h
  · exact .inr h

theorem isNormal_working : working.IsNormal := by
  intro s hs
  simp only [working, List.mem_cons, List.not_mem_nil, or_false] at hs
  rcases hs with rfl | rfl <;> exact ⟨by decide, by decide, by decide, by decide⟩

theorem isNormal_resolve {directory : AbsolutePath} (h : directory.IsNormal) (t : Text) :
    (directory.resolve t).IsNormal := by
  intro s hs
  rcases mem_resolve hs with hs | ⟨hpart, hnil, hdot, hdots⟩
  · exact h s hs
  · exact ⟨hnil, hdot, hdots, fun hslash ↦ (Text.mem_of_mem_pathParts hpart hslash).2 rfl⟩

theorem IsNormal.parent {p : AbsolutePath} (h : p.IsNormal) : p.parent.IsNormal :=
  fun s hs ↦ h s (List.dropLast_subset _ hs)

theorem foldl_enter_of_isSegment {parts : List Text} (h : ∀ s ∈ parts, s.IsSegment) :
    parts.foldl enter segments = segments ++ parts := by
  induction parts generalizing segments with
  | nil => simp
  | cons s parts ih =>
    have hs := h s List.mem_cons_self
    have hparts : ∀ t ∈ parts, t.IsSegment := fun t ht ↦ h t (List.mem_cons_of_mem _ ht)
    simp [enter_of_isSegment hs, ih hparts]

variable {p directory : AbsolutePath}

theorem splitOn_text (h : p.IsNormal) :
    p.text.splitOn slash = [] :: if p.segments = [] then [[]] else p.segments := by
  have hcons : p.text.splitOn slash = [] :: (Text.joinWith "/" p.segments).splitOn slash := by
    simp [text, List.splitOn_cons_eq_if_modifyHead]
  rw [hcons]
  split
  · next he => simp [he, Text.joinWith]
  · next he =>
      exact congrArg _ (List.splitOn_intercalate slash (fun s hs ↦ (h s hs).slash_notMem) he)

theorem foldl_enter_text (h : p.IsNormal) : p.text.pathParts.foldl enter [] = p.segments := by
  rw [Text.pathParts_eq_splitOn, splitOn_text h]
  split
  · next he => simp [he, enter]
  · simp [enter, foldl_enter_of_isSegment h]

theorem startsWith_text (p : AbsolutePath) (s : Text) :
    Text.startsWith "/" (p.text ++ s) = true := by
  simp [Text.startsWith, Text.ofString, Text.ofChar, text]

theorem exists_segment_of_mem_text {c : CodeUnit} (h : c ∈ p.text) (hc : c ≠ slash) :
    ∃ s ∈ p.segments, c ∈ s := by
  have hjoin : c ∈ Text.joinWith "/" p.segments := (List.mem_cons.mp h).resolve_left hc
  exact (Text.mem_joinWith hjoin).resolve_left fun hs ↦ hc (List.mem_singleton.mp hs)

theorem resolve_text (h : p.IsNormal) : directory.resolve p.text = p := by
  have hstart := p.startsWith_text []
  rw [List.append_nil] at hstart
  rw [resolve, if_pos hstart, foldl_enter_text h]

theorem text_injOn {q : AbsolutePath} (hp : p.IsNormal) (hq : q.IsNormal) (h : p.text = q.text) :
    p = q := by
  have hself : root.resolve p.text = p := resolve_text hp
  rw [h, resolve_text hq] at hself
  exact hself.symm

/-- What a relative path denotes in a directory is denoted by the path that goes through the
directory. -/
theorem resolve_text_append {s : Text} (h : p.IsNormal) (hs : Text.startsWith "/" s = false) :
    directory.resolve (p.text ++ slash :: s) = p.resolve s := by
  simp [resolve, startsWith_text, hs, Text.pathParts_append, List.foldl_append, foldl_enter_text h]

theorem resolve_nil (p : AbsolutePath) : p.resolve [] = p := rfl

theorem text_eq_root_iff (h : p.IsNormal) : p.text = "/" ↔ p.segments = [] := by
  constructor
  · intro he
    have hsplit := splitOn_text h
    have hroot : ("/" : Text).splitOn slash = [[], []] := by decide
    rw [he, hroot] at hsplit
    split at hsplit
    · assumption
    · obtain ⟨-, hsegments⟩ := List.cons.inj hsplit
      exact absurd rfl (h [] (hsegments ▸ List.mem_cons_self)).ne_nil
  · intro he
    rw [text, he]
    rfl

theorem isNormalPath_text (h : p.IsNormal) : p.text.IsNormalPath := by
  have hne : p.text ≠ "/" → ∀ part ∈ (p.text.splitOn slash).tail, part ≠ [] := by
    intro hroot part hpart
    rw [splitOn_text h, if_neg fun he ↦ hroot ((text_eq_root_iff h).mpr he),
      List.tail_cons] at hpart
    exact (h part hpart).ne_nil
  refine ⟨?_, ?_, hne, ?_⟩
  · simpa using p.startsWith_text []
  · intro part hpart
    rw [splitOn_text h] at hpart
    rcases List.mem_cons.mp hpart with rfl | hpart
    · decide
    · split at hpart
      · obtain rfl := List.mem_singleton.mp hpart
        decide
      · exact ⟨(h part hpart).ne_dot, (h part hpart).ne_dots⟩
  · intro hroot
    refine Bool.eq_false_iff.mpr fun hends ↦ ?_
    rw [Text.endsIn, beq_iff_eq] at hends
    obtain ⟨s, hs⟩ := List.getLast?_eq_some_iff.mp hends
    -- A slash at the end would leave an empty part behind it.
    have hsplit : p.text.splitOn slash = s.splitOn slash ++ [[]] := by
      rw [hs, List.splitOn_append_cons_self, List.splitOn_nil]
    refine hne hroot [] ?_ rfl
    rw [hsplit, List.tail_append_of_ne_nil (List.splitOn_ne_nil slash s)]
    simp

theorem isDirectlyIn_parent (h : p.IsNormal) (hroot : p.segments ≠ []) :
    p.text.IsDirectlyIn p.parent.text := by
  obtain ⟨above, name, hsegments⟩ := (List.eq_nil_or_concat' p.segments).resolve_left hroot
  obtain rfl : p = ⟨above ++ [name]⟩ := congrArg mk hsegments
  have hname := h name (by simp)
  have hparent : parent ⟨above ++ [name]⟩ = ⟨above⟩ := by simp [parent]
  have habove : IsNormal ⟨above⟩ := hparent ▸ h.parent
  refine ⟨name, hname.ne_nil, hname.slash_notMem, ?_⟩
  rw [hparent]
  split
  · next hroot =>
    obtain rfl : above = [] := (text_eq_root_iff habove).mp hroot
    simp [text, Text.joinWith]
  · next hroot =>
    have hne : above ≠ [] := fun he ↦ hroot ((text_eq_root_iff habove).mpr he)
    simp [text, Text.joinWith_concat _ hne]

end AbsolutePath

theorem exists_error_validatePath_iff (s : Text) :
    (∃ e, validatePath s = .error e) ↔ s = [] ∨ 0 ∈ s := by
  simp only [validatePath]
  split
  · simp_all
  · split <;> simp_all

theorem validatePath_eq_ok_iff {s : Text} {p : AbsolutePath} :
    validatePath s = .ok p ↔ s ≠ [] ∧ 0 ∉ s ∧ AbsolutePath.working.resolve s = p := by
  simp only [validatePath]
  split
  · simp_all
  · split <;> simp_all

theorem isNormal_of_validatePath {s : Text} {p : AbsolutePath} (h : validatePath s = .ok p) :
    p.IsNormal := by
  obtain ⟨-, -, rfl⟩ := validatePath_eq_ok_iff.mp h
  exact AbsolutePath.isNormal_resolve AbsolutePath.isNormal_working s

/-- The text of a path that has been accepted is accepted again, and as the same path. -/
theorem validatePath_text {s : Text} {p : AbsolutePath} (h : validatePath s = .ok p) :
    validatePath p.text = .ok p := by
  have hp := isNormal_of_validatePath h
  obtain ⟨-, hnul, rfl⟩ := validatePath_eq_ok_iff.mp h
  refine validatePath_eq_ok_iff.mpr ⟨List.cons_ne_nil _ _, fun hc ↦ ?_,
    AbsolutePath.resolve_text hp⟩
  obtain ⟨segment, hsegment, hc⟩ := AbsolutePath.exists_segment_of_mem_text hc (by decide)
  rcases AbsolutePath.mem_resolve hsegment with hworking | ⟨hpart, -⟩
  · have hfree : ∀ t ∈ AbsolutePath.working.segments, (0 : CodeUnit) ∉ t := by decide
    exact hfree segment hworking hc
  · exact hnul (Text.mem_of_mem_pathParts hpart hc).1

end AnalysisProject
