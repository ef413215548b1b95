import AnalysisProject.Markup.Check
import AnalysisProject.Proofs.Markup.Escaping
import AnalysisProject.Proofs.Markup.Spelling

namespace AnalysisProject

open CodeUnit

namespace Text

theorem dropWhile_isBlank_eq_self {s : Text} (h : ∀ c ∈ s, c.isBlank = false) :
    s.dropWhile CodeUnit.isBlank = s := by
  cases s with
  | nil => rfl
  | cons c s => exact trimStart_cons (h c (List.mem_cons_self ..)) s

theorem trim_eq_self {s : Text} (h : ∀ c ∈ s, c.isBlank = false) : s.trim = s := by
  rw [trim, trimStart, dropWhile_isBlank_eq_self h, trimEnd,
    dropWhile_isBlank_eq_self fun c hc ↦ h c (List.mem_reverse.mp hc), List.reverse_reverse]

theorem IsSpace.trim {s : Text} (h : s.IsSpace) : s.trim = [] := by
  have ht : s.trimStart = [] := (List.append_nil s ▸ h.trimStart_append []).trans rfl
  rw [Text.trim, ht]
  rfl

end Text

namespace Markup.Check

def resume (p : Progress) (s : Text) : Except Failure Progress :=
  match skipContent p.rootClosed s with
  | .error e => .error e
  | .ok none => .ok p
  | .ok (some rest) => run p rest

theorem run_eq (p : Progress) (s : Text) :
    run p s = p.judge s (Tag.read s) >>= fun p ↦ resume p (Tag.read s).next := by
  rw [run]
  cases p.judge s (Tag.read s) with
  | error e => rfl
  | ok p =>
    simp only [bind, Except.bind, resume]
    split <;> simp_all

theorem resume_less (p : Progress) {s : Text}
    (h : Text.startsWith "!" s = false ∧ Text.startsWith "?" s = false) :
    resume p (less :: s) = run p s := by
  rw [resume, skipContent, if_pos rfl, h.1, h.2]
  rfl

/-- A text that the check passes inside an open element, whatever follows. -/
def Neutral (s : Text) : Prop :=
  ∀ p rest, p.rootClosed = false → p.opened ≠ [] → resume p (s ++ rest) = resume p rest

theorem neutral_nil : Neutral [] := fun _ _ _ _ ↦ rfl

theorem Neutral.append {s t : Text} (hs : Neutral s) (ht : Neutral t) : Neutral (s ++ t) := by
  intro p rest hr ho
  rw [List.append_assoc, hs p _ hr ho, ht p rest hr ho]

theorem neutral_flatMap {α : Type} {f : α → Text} {l : List α} (h : ∀ a ∈ l, Neutral (f a)) :
    Neutral (l.flatMap f) := by
  induction l with
  | nil => exact neutral_nil
  | cons a l ih =>
    rw [List.flatMap_cons]
    exact (h a (List.mem_cons_self ..)).append (ih fun b hb ↦ h b (List.mem_cons_of_mem _ hb))

theorem neutral_of_skipContent {s : Text}
    (h : ∀ rest, skipContent false (s ++ rest) = skipContent false rest) :
    Neutral s := by
  intro p rest hr _
  rw [resume, resume, hr, h]

theorem neutral_unit {c : CodeUnit} (hl : c ≠ less) (ha : c ≠ ampersand) : Neutral [c] :=
  neutral_of_skipContent fun rest ↦ by
    rw [List.singleton_append, skipContent, if_neg hl, if_neg ha]
    rfl

theorem neutral_gap {s : Text} (h : ∀ c ∈ s, c ≠ less ∧ c ≠ ampersand) : Neutral s := by
  have hs := neutral_flatMap (f := fun c ↦ [c]) fun c hc ↦ neutral_unit (h c hc).1 (h c hc).2
  rwa [List.flatMap_singleton'] at hs

theorem neutral_reference {s : Text} (h : ∀ rest, skipReference? (s ++ rest) = some rest) :
    Neutral (ampersand :: s) :=
  neutral_of_skipContent fun rest ↦ by
    rw [List.cons_append, skipContent, if_neg (by decide), if_pos rfl]
    split
    · next t ht =>
      rw [h, Option.some.injEq] at ht
      exact congrArg (skipContent false) ht.symm
    · next hn => rw [h] at hn; contradiction

theorem neutral_written {c : CodeUnit} {reference : Text} (h : (c, reference) ∈ Reference.written) :
    Neutral reference := by
  simp only [Reference.written, List.mem_cons, Prod.mk.injEq, List.not_mem_nil, or_false] at h
  rcases h with ⟨-, rfl⟩ | ⟨-, rfl⟩ | ⟨-, rfl⟩ | ⟨-, rfl⟩ | ⟨-, rfl⟩
  all_goals exact neutral_reference fun rest ↦ rfl

theorem neutral_escape (s : Text) : Neutral (Reference.escape s) := by
  rw [Reference.escape_eq_flatMap]
  refine neutral_flatMap fun c _ ↦ ?_
  rcases Reference.spelling_cases (List.not_mem_nil (a := ampersand)) c with ⟨ha, hs, hl⟩ | ⟨-, hw⟩
  · rw [hs]
    refine neutral_unit ?_ ha
    rintro rfl
    rcases hl with hl | hl <;> cases hl
  · exact neutral_written hw

namespace Tag

theorem isNameUnit_of_isPlain {c : CodeUnit} (h : c.isPlain = true) : isNameUnit c = true := by
  simp [isNameUnit, isXmlSpace_of_isPlain h, isPlain_ne h (show greater.isPlain = false from rfl)]

theorem isNameUnit_of_isXmlSpace {c : CodeUnit} (h : c.isXmlSpace = true) :
    isNameUnit c = false := by
  simp [isNameUnit, h]

variable {name : Text} (h : name.IsPlainName)

include h

theorem span_name {s : Text} (hs : ∀ c ∈ s, isNameUnit c = true) {c : CodeUnit}
    (hc : isNameUnit c = false) (rest : Text) :
    (name ++ (s ++ c :: rest)).takeWhile isNameUnit = name ++ s ∧
      (name ++ (s ++ c :: rest)).dropWhile isNameUnit = c :: rest := by
  have hn : ∀ d ∈ name ++ s, isNameUnit d = true := by
    intro d hd
    rcases List.mem_append.mp hd with hd | hd
    · exact isNameUnit_of_isPlain (h.isPlain d hd)
    · exact hs d hd
  rw [← List.append_assoc, List.takeWhile_append_of_pos hn, List.dropWhile_append_of_pos hn]
  exact ⟨by simp [hc], by simp [hc]⟩

theorem startsWith_slash (rest : Text) : Text.startsWith "/" (name ++ rest) = false :=
  h.startsWith_eq_false (c := slash) rfl [] rest

theorem ofName_plain (isClosing : Bool) (rest : Text) :
    ofName isClosing name rest = ⟨isClosing, name, rest⟩ := by
  have hs : slash ∉ name := h.not_mem rfl
  rw [ofName, Text.trim_eq_self fun c hc ↦ isBlank_of_isPlain (h.isPlain c hc),
    Text.endsIn_eq_false hs]
  rfl

theorem ofName_slash (isClosing : Bool) (rest : Text) :
    ofName isClosing (name ++ [slash]) rest = ⟨isClosing, name, slash :: rest⟩ := by
  have ht : Text.trim (name ++ [slash]) = name ++ [slash] := by
    refine Text.trim_eq_self fun c hc ↦ ?_
    rcases List.mem_append.mp hc with hc | hc
    · exact isBlank_of_isPlain (h.isPlain c hc)
    · rw [List.mem_singleton.mp hc]
      rfl
  have he : Text.endsIn slash (name ++ [slash]) = true := by simp [Text.endsIn]
  rw [ofName, ht, if_pos he]
  simp

theorem read_name {c : CodeUnit} (hc : isNameUnit c = false) (rest : Text) :
    read (name ++ c :: rest) = ⟨false, name, c :: rest⟩ := by
  obtain ⟨ht, hd⟩ := span_name h (s := []) (fun _ hd ↦ absurd hd (List.not_mem_nil)) hc rest
  rw [List.nil_append] at ht hd
  rw [List.append_nil] at ht
  simp only [read, startsWith_slash h, Bool.false_eq_true, if_false, ht, hd, ofName_plain h]

theorem read_name_slash (rest : Text) :
    read (name ++ slash :: greater :: rest) = ⟨false, name, slash :: greater :: rest⟩ := by
  have hs : ∀ d ∈ [slash], isNameUnit d = true := by decide
  obtain ⟨ht, hd⟩ := span_name h hs (c := greater) rfl rest
  rw [List.singleton_append] at ht hd
  simp only [read, startsWith_slash h, Bool.false_eq_true, if_false, ht, hd, ofName_slash h]

theorem read_closing {c : CodeUnit} (hc : isNameUnit c = false) (rest : Text) :
    read (slash :: (name ++ c :: rest)) = ⟨true, name, c :: rest⟩ := by
  obtain ⟨ht, hd⟩ := span_name h (s := []) (fun _ hd ↦ absurd hd (List.not_mem_nil)) hc rest
  rw [List.nil_append] at ht hd
  rw [List.append_nil] at ht
  have hs : Text.startsWith "/" (slash :: (name ++ c :: rest)) = true := rfl
  simp only [read, hs, if_true, List.drop_succ_cons, List.drop_zero, ht, hd, ofName_plain h]

end Tag

theorem judgeAttributes_flatMap {attributes : List WrittenAttribute}
    (ha : ∀ a ∈ attributes, a.IsSound ∧ a.space ≠ [])
    (hn : (attributes.map WrittenAttribute.name).Nodup) {last : Text} (hl : last.IsSpace)
    (afterName : Text) (offset : Nat) (seen : List Text) (hs : ∀ a ∈ attributes, a.name ∉ seen)
    (hr : ("hasOwnProperty" : Text) ∉ seen) :
    judgeAttributes afterName seen
      (Attribute.marks offset (attributes.flatMap WrittenAttribute.text ++ last)) =
      .ok () := by
  induction attributes generalizing offset seen with
  | nil => rw [List.flatMap_nil, List.nil_append, Attribute.marks_of_isSpace hl]; rfl
  | cons a attributes ih =>
    obtain ⟨hsound, hspace⟩ := ha a (List.mem_cons_self ..)
    rw [List.map_cons, List.nodup_cons] at hn
    obtain ⟨m, next, hm, hname, hspaced, hequals, hvalue⟩ :=
      Attribute.marks_append hsound hspace offset
      (attributes.flatMap WrittenAttribute.text ++ last)
    have hseen : seen.contains m.name = false := by
      simpa [hname] using hs a (List.mem_cons_self ..)
    have hlost : seen.contains ("hasOwnProperty" : Text) = false := by simpa using hr
    have hproto : (m.name == "__proto__") = false := by
      simpa [hname] using hsound.name.ne_reserved.1
    rw [List.flatMap_cons, List.append_assoc, hm, judgeAttributes]
    simp only [hspaced, hequals, hvalue, hseen, hlost, hproto, hname ▸ hsound.name.isName,
      Bool.not_true, Bool.and_false, Bool.false_eq_true, if_false]
    refine ih (fun b hb ↦ ha b (List.mem_cons_of_mem _ hb)) hn.2 next _ ?_ ?_
    · intro b hb hc
      rcases List.mem_cons.mp hc with hc | hc
      · exact hn.1 (List.mem_map.mpr ⟨b, hb, hc.trans hname⟩)
      · exact hs b (List.mem_cons_of_mem _ hb) hc
    · intro hc
      rcases List.mem_cons.mp hc with hc | hc
      · exact hsound.name.ne_reserved.2 (hname ▸ hc.symm)
      · exact hr hc

section Tags

variable {t : WrittenTag} (ht : t.IsSound) (p : Progress) (rest : Text)

include ht

theorem read_tag (closing : Text) (hc : closing = [greater] ∨ closing = [slash, greater]) :
    Tag.read (t.name ++ (t.inside ++ (closing ++ rest))) =
      ⟨false, t.name, t.inside ++ (closing ++ rest)⟩ := by
  rcases ht.inside_cases with hi | ⟨c, s, hi, hs⟩
  · rw [hi]
    rcases hc with rfl | rfl
    · exact Tag.read_name ht.name rfl rest
    · exact Tag.read_name_slash ht.name rest
  · rw [hi]
    exact Tag.read_name ht.name (Tag.isNameUnit_of_isXmlSpace hs) _

theorem span_open :
    Tag.span ⟨false, t.name, t.inside ++ ([greater] ++ rest)⟩ =
      ⟨t.inside, none, greater :: rest⟩ := by
  rw [Tag.span, ht.spanTag_inside KeepsSpace.id, WrittenTag.mapSpace_id]
  simp [spanTag, TagSpan.prepend]

theorem span_empty :
    Tag.span ⟨false, t.name, t.inside ++ ([slash, greater] ++ rest)⟩ =
      ⟨t.inside ++ [slash], none, greater :: rest⟩ := by
  have hs : spanTag id none ([slash, greater] ++ rest) = ⟨[slash], none, greater :: rest⟩ := by
    have h : spanTag id none ([slash] ++ greater :: rest) =
        (spanTag id none (greater :: rest)).prepend [slash] :=
      spanTag_append (by decide) _
    rw [List.singleton_append] at h
    rw [List.cons_append, List.singleton_append, h, spanTag, if_pos rfl]
    rfl
  rw [Tag.span, ht.spanTag_inside KeepsSpace.id, WrittenTag.mapSpace_id, hs]
  rfl

theorem run_open :
    run p (t.name ++ (t.inside ++ ([greater] ++ rest))) =
      if p.rootClosed then refuse .secondRoot (greater :: rest)
      else resume { p with
          opened := ⟨t.name, less :: (t.name ++ (t.inside ++ ([greater] ++ rest)))⟩ ::
            p.opened } rest := by
  have hj := judgeAttributes_flatMap ht.attributes ht.nodup ht.last
    (t.inside ++ ([greater] ++ rest)) 0 [] (fun _ _ ↦ List.not_mem_nil) List.not_mem_nil
  rw [run_eq, read_tag ht rest _ (.inl rfl)]
  simp only [Progress.judge, Tag.next, span_open ht, ht.name.isName, ht.endsIn_inside,
    Bool.not_true, Bool.false_eq_true, if_false, Option.isSome_none]
  rw [WrittenTag.inside] at *
  rw [hj]
  cases p.rootClosed <;> rfl

theorem run_empty : run p (t.name ++ (t.inside ++ ([slash, greater] ++ rest))) = resume p rest := by
  have hj := judgeAttributes_flatMap ht.attributes ht.nodup ht.last
    (t.inside ++ ([slash, greater] ++ rest)) 0 [] (fun _ _ ↦ List.not_mem_nil) List.not_mem_nil
  have he : Text.endsIn slash (t.inside ++ [slash]) = true := by simp [Text.endsIn]
  rw [run_eq, read_tag ht rest _ (.inr rfl)]
  simp only [Progress.judge, Tag.next, span_empty ht, ht.name.isName, he, List.dropLast_concat,
    Bool.not_true, Bool.false_eq_true, if_false, Option.isSome_none, if_true]
  rw [WrittenTag.inside] at *
  rw [hj]
  rfl

end Tags

section Elements

theorem not_startsWith_of_isPlain {name : Text} (h : name.IsPlainName) (rest : Text) :
    Text.startsWith "!" (name ++ rest) = false ∧ Text.startsWith "?" (name ++ rest) = false :=
  ⟨h.startsWith_eq_false (c := exclamation) rfl [] rest,
    h.startsWith_eq_false (c := question) rfl [] rest⟩

theorem resume_open {t : WrittenTag} (ht : t.IsSound) {p : Progress} (hp : p.rootClosed = false)
    (rest : Text) :
    ∃ s, resume p (t.openText ++ rest) =
      resume { p with opened := ⟨t.name, s⟩ :: p.opened } rest := by
  refine ⟨less :: (t.name ++ (t.inside ++ ([greater] ++ rest))), ?_⟩
  have hs : t.openText ++ rest = less :: (t.name ++ (t.inside ++ ([greater] ++ rest))) := by
    simp [WrittenTag.openText]
  rw [hs, resume_less p (not_startsWith_of_isPlain ht.name _), run_open ht, hp,
    if_neg Bool.false_ne_true]

theorem neutral_empty {t : WrittenTag} (ht : t.IsSound) : Neutral t.emptyText := by
  intro p rest _ _
  have hs : t.emptyText ++ rest = less :: (t.name ++ (t.inside ++ ([slash, greater] ++ rest))) := by
    simp [WrittenTag.emptyText]
  rw [hs, resume_less p (not_startsWith_of_isPlain ht.name _), run_empty ht]

theorem resume_close {name space : Text} (hn : name.IsPlainName) (hs : space.IsSpace) (o : OpenTag)
    (opened : List OpenTag) (ho : o.name = name) (rootClosed : Bool) (rest : Text) :
    resume ⟨o :: opened, rootClosed⟩ (WrittenTag.closeText name space ++ rest) =
      resume ⟨opened, rootClosed || opened.isEmpty⟩ rest := by
  have htext : WrittenTag.closeText name space ++ rest = less :: slash ::
      (name ++ (space ++ greater :: rest)) := by
    simp [WrittenTag.closeText]
  have hspan : Tag.span ⟨true, name, space ++ greater :: rest⟩ =
      ⟨space, none, greater :: rest⟩ := by
    rw [Tag.span, spanTag_append fun c hc ↦ outside_quotes_of_isXmlSpace (hs c hc), List.map_id,
      spanTag, if_pos rfl]
    simp [TagSpan.prepend]
  have hread : Tag.read (slash :: (name ++ (space ++ greater :: rest))) =
      ⟨true, name, space ++ greater :: rest⟩ := by
    cases space with
    | nil => exact Tag.read_closing hn rfl rest
    | cons c s =>
      exact Tag.read_closing hn (Tag.isNameUnit_of_isXmlSpace (hs c (List.mem_cons_self ..))) _
  have hslash : Text.endsIn slash space = false :=
    Text.endsIn_eq_false fun hm ↦ Bool.false_ne_true (hs slash hm)
  rw [htext, resume_less _ ⟨rfl, rfl⟩, run_eq, hread]
  simp only [Progress.judge, Tag.next, hspan, hn.isName, hslash, hs.trim, Bool.not_true,
    Bool.false_eq_true, if_false, Option.isSome_none, if_true, List.isEmpty_cons, List.isEmpty_nil,
    ho, ne_eq, not_true_eq_false]
  rfl

theorem Neutral.element {s : Text} (hs : Neutral s) {t : WrittenTag} (ht : t.IsSound) {space : Text}
    (hspace : space.IsSpace) :
    Neutral (t.openText ++ (s ++ WrittenTag.closeText t.name space)) := by
  intro p rest hr ho
  obtain ⟨whole, hopen⟩ := resume_open ht hr (s ++ (WrittenTag.closeText t.name space ++ rest))
  have hinner :=
    hs ⟨⟨t.name, whole⟩ :: p.opened, p.rootClosed⟩ (WrittenTag.closeText t.name space ++ rest) hr
    (List.cons_ne_nil _ _)
  have hclosed : (p.rootClosed || p.opened.isEmpty) = p.rootClosed := by
    rw [List.isEmpty_eq_false_iff.mpr ho, Bool.or_false]
  rw [List.append_assoc, List.append_assoc, hopen, hinner,
    resume_close ht.name hspace _ _ rfl, hclosed]

end Elements

theorem skipContent_isSpace {s : Text} (h : s.IsSpace) (isAfterRoot : Bool) :
    skipContent isAfterRoot s = .ok none := by
  induction s with
  | nil => rw [skipContent]
  | cons c s ih =>
    have hc := h c (List.mem_cons_self ..)
    have hl : c ≠ less := by rintro rfl; cases hc
    have ha : c ≠ ampersand := by rintro rfl; cases hc
    rw [skipContent, if_neg hl, if_neg ha, hc, Bool.not_true, Bool.and_false,
      if_neg Bool.false_ne_true]
    exact ih fun d hd ↦ h d (List.mem_cons_of_mem _ hd)

theorem skipProlog_isSpace {s : Text} (h : s.IsSpace) (rest : Text) :
    skipProlog false (s ++ rest) = skipProlog false rest := by
  induction s with
  | nil => rfl
  | cons c s ih =>
    have hc := h c (List.mem_cons_self ..)
    have hl : c ≠ less := by rintro rfl; cases hc
    rw [List.cons_append, skipProlog, if_neg hl, if_pos hc]
    exact ih fun d hd ↦ h d (List.mem_cons_of_mem _ hd)

theorem skipProlog_name {name : Text} (h : name.IsPlainName) (isStart : Bool) (rest : Text) :
    skipProlog isStart (less :: (name ++ rest)) = .ok (some (name ++ rest)) := by
  obtain ⟨hx, hq⟩ := not_startsWith_of_isPlain h rest
  rw [skipProlog, if_pos rfl, hx, hq]
  rfl

/-- The root element around a neutral text is all of a document, apart from what the check passes
over at the end. -/
theorem run_root_of_skipContent {t : WrittenTag} (ht : t.IsSound) {s space last : Text}
    (hs : Neutral s) (hspace : space.IsSpace) (hlast : skipContent true last = .ok none) :
    run {} (t.name ++ (t.inside ++
      ([greater] ++ (s ++ (WrittenTag.closeText t.name space ++ last))))) = .ok ⟨[], true⟩ := by
  rw [run_open ht, if_neg (by decide), hs _ _ rfl (List.cons_ne_nil _ _),
    resume_close ht.name hspace _ _ rfl, resume, Bool.false_or, List.isEmpty_nil, hlast]

theorem run_root {t : WrittenTag} (ht : t.IsSound) {s space last : Text} (hs : Neutral s)
    (hspace : space.IsSpace) (hlast : last.IsSpace) :
    run {} (t.name ++ (t.inside ++
      ([greater] ++ (s ++ (WrittenTag.closeText t.name space ++ last))))) = .ok ⟨[], true⟩ :=
  run_root_of_skipContent ht hs hspace (skipContent_isSpace hlast true)

end Markup.Check
end AnalysisProject
