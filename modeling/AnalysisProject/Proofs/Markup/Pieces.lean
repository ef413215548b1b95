import AnalysisProject.Proofs.Markup.Lines
import AnalysisProject.Proofs.Markup.Roots

namespace AnalysisProject

open CodeUnit

namespace Text

theorem isBlank_or_mem_trim {s : Text} {c : CodeUnit} (h : c ∈ s) :
    c.isBlank = true ∨ c ∈ s.trim := by
  have hstart {s : Text} (h : c ∈ s) : c.isBlank = true ∨ c ∈ s.trimStart := by
    rw [← List.takeWhile_append_dropWhile (p := isBlank) (l := s), List.mem_append] at h
    exact h.imp_left fun hm ↦ List.all_eq_true.mp List.all_takeWhile c hm
  rcases hstart h with hb | hm
  · exact .inl hb
  · exact (hstart (List.mem_reverse.mpr hm)).imp_right List.mem_reverse.mpr

theorem endsIn_append {t : Text} (ht : t ≠ []) (c : CodeUnit) (s : Text) :
    endsIn c (s ++ t) = endsIn c t := by
  rw [endsIn, endsIn, List.getLast?_append_of_ne_nil s ht]

section Trim

variable {c : CodeUnit} (hc : c.isBlank = false)

include hc

theorem endsIn_trimStart_eq (s : Text) : endsIn c s.trimStart = endsIn c s := by
  cases h : endsIn c s with
  | false => exact endsIn_trimStart h
  | true =>
    rw [eq_append_of_endsIn h, trimStart_concat hc]
    exact endsIn_concat c _

theorem endsIn_trim {s : Text} (h : endsIn c s = true) : endsIn c s.trim = true := by
  have htrim : trim s = trimStart s.dropLast ++ [c] := by
    have hstop : ¬ c.isBlank = true := ne_true_of_eq_false hc
    rw [eq_append_of_endsIn h, List.dropLast_concat, trim, trimStart_concat hc, trimEnd,
      List.reverse_concat, List.dropWhile_cons_of_neg hstop, List.reverse_cons,
      List.reverse_reverse]
  rw [htrim]
  exact endsIn_concat c _

end Trim
end Text

namespace Markup

section Scanners

theorem spanTag_rest_eq (outside : CodeUnit → CodeUnit) (q : Option CodeUnit) (s : Text) :
    (spanTag outside q s).rest = (spanTag id q s).rest := by
  fun_induction spanTag id q s with
  | case1 => rw [spanTag]
  | case2 q c s ih => exact ih
  | case3 s => rw [spanTag, if_pos rfl]
  | case4 c s hg hq ih =>
    rw [spanTag, if_neg hg, if_pos hq]
    exact ih
  | case5 c s hg hq ih =>
    rw [spanTag, if_neg hg, if_neg hq]
    exact ih

theorem endsIn_spanTag_blankTab (q : Option CodeUnit) (s : Text) :
    (spanTag Reading.blankTab q s).inside.endsIn slash = (spanTag id q s).inside.endsIn slash := by
  have hempty (q : Option CodeUnit) (s : Text) :
      (spanTag Reading.blankTab q s).inside.isEmpty = (spanTag id q s).inside.isEmpty := by
    have h₁ := length_spanTag Reading.blankTab q s
    have h₂ := length_spanTag id q s
    rw [spanTag_rest_eq] at h₁
    rw [Bool.eq_iff_iff, List.isEmpty_iff_length_eq_zero, List.isEmpty_iff_length_eq_zero]
    omega
  fun_induction spanTag id q s with
  | case1 => rw [spanTag]
  | case2 q c s ih =>
    rw [spanTag, TagSpan.push, TagSpan.push, Text.endsIn_cons, Text.endsIn_cons, ih, hempty]
  | case3 s => rw [spanTag, if_pos rfl]
  | case4 c s hg hq ih =>
    rw [spanTag, if_neg hg, if_pos hq, TagSpan.push, TagSpan.push, Text.endsIn_cons,
      Text.endsIn_cons, ih, hempty]
  | case5 c s hg hq ih =>
    have hc : (Reading.blankTab c == slash) = (c == slash) := by
      rw [Reading.blankTab]
      split
      · next h =>
        subst h
        rfl
      · rfl
    rw [spanTag, if_neg hg, if_neg hq, TagSpan.push, TagSpan.push, Text.endsIn_cons,
      Text.endsIn_cons, ih, hempty, hc]
    rfl

theorem spanTag_inside_append_rest (q : Option CodeUnit) (s : Text) :
    (spanTag id q s).inside ++ (spanTag id q s).rest = s := by
  fun_induction spanTag id q s with
  | case1 => rfl
  | case2 q c s ih => exact congrArg (c :: ·) ih
  | case3 s => rfl
  | case4 c s _ _ ih => exact congrArg (c :: ·) ih
  | case5 c s _ _ ih => exact congrArg (c :: ·) ih

theorem Reading.endsIn_splitName (inside : Text) :
    (splitName inside).2.endsIn slash = inside.endsIn slash := by
  rw [splitName]
  split
  · next h =>
    have hne : inside.dropWhile (!CodeUnit.isBlank ·) ≠ [] := by
      obtain ⟨c, hc, hb⟩ := List.any_eq_true.mp h
      intro hn
      have hall := List.dropWhile_eq_nil_iff.mp hn c hc
      rw [hb] at hall
      cases hall
    have hs : inside.takeWhile (!CodeUnit.isBlank ·) ++ inside.dropWhile (!CodeUnit.isBlank ·) =
        inside :=
      List.takeWhile_append_dropWhile
    rw [Text.endsIn_trimStart_eq (by rfl),
      ← Text.endsIn_append hne slash (inside.takeWhile (!CodeUnit.isBlank ·)), hs]
  · rfl

end Scanners

section Tags

namespace Check.Tag

theorem isQuote_of_isName {name : Text} (h : name.isName = true) :
    ∀ c ∈ name, c.isQuote = false := by
  have hunit {c : CodeUnit} (h : c.isNameUnit = true) : c.isQuote = false := by
    rw [isQuote, Bool.or_eq_false_iff, beq_eq_false_iff_ne, beq_eq_false_iff_ne]
    constructor
    · rintro rfl
      exact absurd h (by decide)
    · rintro rfl
      exact absurd h (by decide)
  cases name with
  | nil => exact fun _ hm ↦ absurd hm List.not_mem_nil
  | cons c s =>
    obtain ⟨hc, hs⟩ := Bool.and_eq_true_iff.mp h
    have hall : ∀ d ∈ s, d.isNameUnit = true := List.all_eq_true.mp hs
    intro d hd
    rcases List.mem_cons.mp hd with rfl | hd
    · exact hunit (Bool.or_eq_true_iff.mpr (.inl hc))
    · exact hunit (hall d hd)

variable {isClosing : Bool} {raw rest : Text}

theorem isQuote_of_ofName (h : (ofName isClosing raw rest).name.isName = true) :
    ∀ c ∈ raw, c.isQuote = false := by
  intro c hc
  rcases Text.isBlank_or_mem_trim hc with hb | hm
  · exact Bool.eq_false_iff.mpr fun hq ↦ Bool.false_ne_true ((isBlank_of_isQuote hq).symm.trans hb)
  · rw [ofName] at h
    split at h
    · next hs =>
      rw [Text.eq_append_of_endsIn hs, List.mem_append, List.mem_singleton] at hm
      rcases hm with hm | rfl
      · exact isQuote_of_isName h c hm
      · rfl
    · exact isQuote_of_isName h c hm

theorem exists_eq_append_ofName (hg : greater ∉ raw)
    (h : (ofName isClosing raw rest).name.isName = true) :
    ∃ before, raw ++ rest = before ++ (ofName isClosing raw rest).afterName ∧
      (∀ c ∈ before, c ≠ greater ∧ c.isQuote = false) ∧
      ((ofName isClosing raw rest).span.inside = [] → before.endsIn slash = false) := by
  have hraw : ∀ c ∈ raw, c ≠ greater ∧ c.isQuote = false :=
    fun c hc ↦ ⟨fun he ↦ hg (he ▸ hc), isQuote_of_ofName h c hc⟩
  rw [ofName]
  split
  · next hs =>
    refine ⟨raw.take (raw.length - 1), ?_, fun c hc ↦ hraw c (List.mem_of_mem_take hc), fun hn ↦ ?_⟩
    · rw [← List.append_assoc, List.take_append_drop]
    · -- The last unit of `raw` goes to the rest, so that this does not begin with the end of the
      -- tag.
      have hlast : raw.drop (raw.length - 1) ≠ [] := by
        rw [ne_eq, List.drop_eq_nil_iff]
        have hlen : raw.length ≠ 0 := by
          intro hz
          rw [List.length_eq_zero_iff.mp hz] at hs
          cases hs
        omega
      rw [span, spanTag_append fun c hc ↦ hraw c (List.mem_of_mem_drop hc)] at hn
      exact absurd (List.append_eq_nil_iff.mp hn).1 (by simpa using hlast)
  · next hs =>
      exact ⟨raw, rfl, hraw, fun _ ↦ Bool.eq_false_iff.mpr fun he ↦
        hs (Text.endsIn_trim (by rfl) he)⟩

theorem read_slash (s : Text) : read (slash :: s) =
    ofName true (s.takeWhile isNameUnit) (s.dropWhile isNameUnit) := rfl

theorem read_of_startsWith {s : Text} (h : Text.startsWith "/" s = false) :
    read s = ofName false (s.takeWhile isNameUnit) (s.dropWhile isNameUnit) := by
  rw [read, h]
  rfl

/-- What stands before the rest of a tag does not end it. If nothing goes on there, a slash at its
end would belong to the rest. -/
theorem exists_eq_append_afterName {s : Text} (h : (read s).name.isName = true) :
    ∃ before, s = before ++ (read s).afterName ∧ (∀ c ∈ before, c ≠ greater ∧ c.isQuote = false) ∧
      (Text.startsWith "/" s = false → (read s).span.inside = [] → before.endsIn slash =
        false) := by
  have hg (s : Text) : greater ∉ s.takeWhile isNameUnit :=
    fun hm ↦ absurd (List.all_eq_true.mp List.all_takeWhile _ hm) (by decide)
  have hs (s : Text) : s.takeWhile isNameUnit ++ s.dropWhile isNameUnit = s :=
    List.takeWhile_append_dropWhile
  cases hslash : Text.startsWith "/" s with
  | true =>
    obtain ⟨t, rfl⟩ := Text.eq_cons_of_startsWith (c := slash) hslash
    rw [read_slash] at h ⊢
    obtain ⟨before, hsplit, hbefore, -⟩ := exists_eq_append_ofName (hg _) h
    rw [hs] at hsplit
    refine ⟨slash :: before, congrArg (slash :: ·) hsplit, ?_, fun hn ↦ absurd hn (by decide)⟩
    exact List.forall_mem_cons.mpr ⟨by decide, hbefore⟩
  | false =>
    rw [read_of_startsWith hslash] at h ⊢
    obtain ⟨before, hsplit, hbefore, hends⟩ := exists_eq_append_ofName (hg _) h
    rw [hs] at hsplit
    exact ⟨before, hsplit, hbefore, fun _ ↦ hends⟩

theorem isClosing_read (s : Text) : (read s).isClosing = Text.startsWith "/" s := by
  have hname (isClosing : Bool) (raw rest : Text) :
      (ofName isClosing raw rest).isClosing = isClosing := by
    rw [ofName]
    split <;> rfl
  rw [read]
  exact hname _ _ _

theorem item_unifyLines (t : Tag) : t.unifyLines.item = t.item := by
  have hends : t.unifyLines.span.inside.endsIn slash = t.span.inside.endsIn slash := by
    rw [span_unifyLines]
    exact Text.endsIn_unifyFrom false rfl _
  rw [item, item, hends]
  rfl

end Check.Tag

namespace Check

theorem isName_of_judge {p p' : Progress} {s : Text} {t : Tag} (h : p.judge s t = .ok p') :
    t.name.isName = true ∧ (t.item = .closing → t.span.rest ≠ [] ∧ t.span.inside.trim = []) := by
  rw [Progress.judge] at h
  rw [Tag.item]
  split at h
  · cases h
  · next hn =>
    refine ⟨by simpa using hn, ?_⟩
    split at h
    · cases h
    · split at h
      · next he =>
        rw [if_pos he]
        intro hi
        cases hi
      · next he =>
        rw [if_neg he]
        split at h
        · next hc =>
          split at h
          · cases h
          · next hr =>
            split at h
            · cases h
            · next hi => exact fun _ ↦ ⟨by simpa using hr, by simpa using hi⟩
        · next hc =>
          rw [if_neg hc]
          intro hi
          cases hi

variable {p p' : Progress} {s rest : Text} {item : Item}

/-- A closing tag ends at the first `>` in it for the check, too. -/
theorem piece?_closing (hj : p.judge s (Tag.read s) = .ok p') (hs : Text.startsWith "/" s = true)
    (hi : (Tag.read s).item = .closing) : Reading.piece? s =
      some (.closing, (Tag.read s).next) := by
  obtain ⟨hn, hclosing⟩ := isName_of_judge hj
  obtain ⟨hrest, hinside⟩ := hclosing hi
  obtain ⟨before, hsplit, hbefore, -⟩ := Tag.exists_eq_append_afterName hn
  obtain ⟨next, hend⟩ := (spanTag_rest_cases id none (Tag.read s).afterName).resolve_left hrest
  have hnext : (Tag.read s).next = next := by
    rw [Tag.next, Tag.span, hend]
    rfl
  have hspan := spanTag_inside_append_rest none (Tag.read s).afterName
  have hwhole : s = before ++ (Tag.read s).span.inside ++ greater :: next := by
    rw [List.append_assoc, ← hend, Tag.span, hspan]
    exact hsplit
  have hm : greater ∉ before ++ (Tag.read s).span.inside := by
    refine List.not_mem_append (fun hm ↦ (hbefore greater hm).1 rfl) fun hm ↦ ?_
    rcases Text.isBlank_or_mem_trim hm with hb | hm
    · exact absurd hb (by decide)
    · rw [hinside] at hm
      cases hm
  have hafter : Text.after? ">" s = some next :=
    (congrArg (Text.after? ">") hwhole).trans
      (congrArg (Option.map Prod.snd) (Text.splitFirst?_unit hm next))
  rw [Reading.piece?, if_pos hs, hafter, hnext]
  rfl

/-- Any other tag begins outside quotes for the check, too, and its last unit is the same. -/
theorem eq_of_piece?_opening (hj : p.judge s (Tag.read s) = .ok p')
    (hx : Text.startsWith "!" s = false ∧ Text.startsWith "?" s = false)
    (hs : Text.startsWith "/" s = false) (h : Reading.piece? s = some (item, rest)) : item =
      (Tag.read s).item ∧ rest = (Tag.read s).next := by
  have hlong (more : Text) : Text.startsWith (exclamation :: more) s = false := by
    cases s with
    | nil => rfl
    | cons c s => 
      have hc : (exclamation == c && true) = false := hx.1
      rw [Bool.and_true] at hc
      rw [Text.startsWith_cons, hc, Bool.false_and]
  have hcomment : Text.startsWith "!--" s = false := hlong _
  have htype : Text.startsWith "!D" s = false := hlong _
  have hsection : Text.startsWith "![" s = false := hlong _
  rw [Reading.piece?, hs, if_neg Bool.false_ne_true, hx.2, if_neg Bool.false_ne_true, hcomment,
    if_neg Bool.false_ne_true, htype, if_neg Bool.false_ne_true, hsection,
    if_neg Bool.false_ne_true] at h
  obtain ⟨⟨inside, next⟩, htag, he⟩ := Option.map_eq_some_iff.mp h
  cases he
  simp only [Reading.tag?] at htag
  split at htag
  · cases htag
  · cases htag
    obtain ⟨hn, -⟩ := isName_of_judge hj
    obtain ⟨before, hsplit, hbefore, hends⟩ := Tag.exists_eq_append_afterName hn
    have hspan : spanTag id none s = (Tag.read s).span.prepend before := by
      have happend : spanTag id none (before ++ (Tag.read s).afterName) =
          (Tag.read s).span.prepend (before.map id) :=
        spanTag_append hbefore (Tag.read s).afterName
      rwa [← hsplit, List.map_id] at happend
    have hinside : (spanTag Reading.blankTab none s).inside.endsIn slash =
        (Tag.read s).span.inside.endsIn slash := by
      rw [endsIn_spanTag_blankTab, hspan]
      by_cases hnil : (Tag.read s).span.inside = []
      · rw [hnil, TagSpan.prepend, hnil, List.append_nil, hends hs hnil]
        rfl
      · exact Text.endsIn_append hnil slash before
    rw [Reading.tagItem, Reading.endsIn_splitName, hinside, spanTag_rest_eq, hspan, Tag.item,
      Tag.isClosing_read, hs]
    exact ⟨rfl, rfl⟩

/-- The reader takes a tag that passes the check for the same piece, if a slash does not end it
early. -/
theorem eq_of_piece?_tag (hj : p.judge s (Tag.read s) = .ok p')
    (hx : Text.startsWith "!" s = false ∧ Text.startsWith "?" s = false)
    (hslash : Text.startsWith "/" s = true → (Tag.read s).item = .closing)
    (h : Reading.piece? s.unifyLines = some (item, rest)) :
    item = (Tag.read s).item ∧ rest = (Tag.read s).next.unifyLines := by
  have hin : Text.IsInLine "/" ∧ Text.IsInLine "!" ∧ Text.IsInLine "?" := by decide
  have hagree := judge_agree (p := p) ⟨rfl, rfl⟩ s s.unifyLines (Tag.read s)
  rw [hj] at hagree
  generalize hu : p.judge s.unifyLines (Tag.read s).unifyLines = e at hagree
  cases hagree with
  | ok _ =>
    rw [← Tag.next_unifyLines, ← Tag.item_unifyLines]
    rw [← Tag.item_unifyLines] at hslash
    rw [← Tag.read_unifyLines] at hu hslash ⊢
    cases hs : Text.startsWith "/" s with
    | true =>
      rw [piece?_closing hu ((Text.startsWith_unifyLines hin.1 s).trans hs) (hslash hs)] at h
      cases h
      exact ⟨(hslash hs).symm, rfl⟩
    | false =>
      rw [← Text.startsWith_unifyLines hin.2.1, ← Text.startsWith_unifyLines hin.2.2] at hx
      exact eq_of_piece?_opening hu hx ((Text.startsWith_unifyLines hin.1 s).trans hs) h

end Check

end Tags

def isDeclared (s : Text) : Bool :=
  Text.startsWith "<?" s ||
    Text.startsWith "<!" s && !Text.startsWith "<!--" s && !Text.startsWith "<![CDATA[" s

namespace Piece

def unifyLines (p : Piece) : Piece := ⟨p.whole.unifyLines, p.item, p.rest.unifyLines⟩

/-- The check does not take a closing tag for an empty one, and the reader takes an instruction or a
declaration for the same as the check. -/
def IsPlain (p : Piece) : Prop :=
  (Text.startsWith "</" p.whole = true → p.item = .closing) ∧
    (isDeclared p.whole = true → Reading.piece? (Text.unifyLines (p.whole.drop 1)) =
      some (p.item, p.rest.unifyLines))

instance (p : Piece) : Decidable p.IsPlain := inferInstanceAs (Decidable (_ ∧ _))

end Piece

theorem Item.ofText_unifyLines (s : Text) : ofText s.unifyLines = ofText s := by
  have hcontains : s.unifyLines.contains ampersand = s.contains ampersand := by
    rw [Bool.eq_iff_iff, List.contains_iff_mem, List.contains_iff_mem]
    refine ⟨Text.unifyLines_seamless.mem s ampersand rfl, fun hm ↦ ?_⟩
    obtain ⟨before, after, rfl⟩ := List.append_of_mem hm
    rw [Text.unifyLines_seamless.cut before ampersand after rfl]
    exact List.mem_append_right _ (List.mem_cons_self ..)
  rw [ofText, ofText, Text.all_unifyLines s fun _ ↦ isXmlSpace_of_endsLine, hcontains]

namespace Reading

variable {r r' : Reading} {s rest : Text} {item : Item}

theorem outline_of_run_less (hr : run r (less :: s) = .ok r')
    (h : ∀ item' rest', piece? s = some (item', rest') → item' = item ∧ rest' = rest) :
    outline (less :: s) = ⟨less :: s, item, rest⟩ :: outline rest ∧ ∃ r₁, run r₁ rest = .ok r' := by
  rw [run, if_pos rfl] at hr
  split at hr
  · cases hr
  · next r₁ rest' hmarkup =>
    obtain ⟨item', hpiece, -, -⟩ := piece?_of_takeMarkup hmarkup
    obtain ⟨rfl, rfl⟩ := h item' rest' hpiece
    exact ⟨outline_less hpiece, r₁, hr⟩

theorem outline_of_run_text {c : CodeUnit} (hc : c ≠ less)
    (hr : run r (Text.unifyLines (c :: s)) = .ok r') :
    outline (Text.unifyLines (c :: s)) =
        Piece.unifyLines ⟨c :: s, .ofText (c :: s.takeWhile (· != less)),
          s.dropWhile (· != less)⟩ ::
          outline (Text.unifyLines (s.dropWhile (· != less))) ∧
      ∃ r₁, run r₁ (Text.unifyLines (s.dropWhile (· != less))) = .ok r' := by
  have hline (d : CodeUnit) (hd : d.endsLine = true) : (d != less) = true :=
    bne_iff_ne.mpr (ne_of_endsLine rfl hd).symm
  have htake := Text.takeWhile_unifyFrom false (c :: s) hline
  have hdrop := Text.dropWhile_unifyFrom false (c :: s) hline
  rw [Check.takeWhile_cons_of_ne hc] at htake
  rw [Check.dropWhile_cons_of_ne hc] at hdrop
  rw [Piece.unifyLines, ← Item.ofText_unifyLines]
  have hless : Text.IsInLine [less] := by decide
  have hstart := Text.startsWith_unifyLines hless (c :: s)
  rw [Text.unifyLines] at hr hstart ⊢
  cases hu : Text.unifyFrom false (c :: s) with
  | nil => exact absurd (Text.unifyLines_seamless.eq_nil _ hu) (List.cons_ne_nil c s)
  | cons d t =>
    rw [hu] at htake hdrop hr hstart
    have hd : d ≠ less := by
      rintro rfl
      exact hc (beq_iff_eq.mp (Bool.and_eq_true_iff.mp hstart.symm).1).symm
    rw [Check.takeWhile_cons_of_ne hd] at htake
    rw [Check.dropWhile_cons_of_ne hd] at hdrop
    rw [run, if_neg hd, hdrop] at hr
    rw [outline_text hd, htake, hdrop]
    exact ⟨rfl, _, hr⟩

end Reading

namespace Check

variable {p p' : Progress} {r r' : Reading} {s rest : Text} {item : Item}

theorem eq_of_piece?_question {isProlog : Bool}
    (hp : Piece.IsPlain ⟨less :: question :: s, .misc, afterInstruction isProlog (question :: s)⟩)
    (h : Reading.piece? (Text.unifyLines (question :: s)) = some (item, rest)) :
    item = .misc ∧ rest = (afterInstruction isProlog (question :: s)).unifyLines := by
  cases h.symm.trans (hp.2 rfl)
  exact ⟨rfl, rfl⟩

theorem eq_of_piece?_comment (hs : Text.startsWith "--" s = true)
    (h : Reading.piece? (Text.unifyLines (exclamation :: s)) = some (item, rest)) :
    item = exclamationItem s ∧ rest = (skipExclamation s).unifyLines := by
  have hin : Text.IsInLine "--" ∧ Text.IsInLine "-->" := by decide
  have hmark : Text.startsWith "!--" (Text.unifyLines (exclamation :: s)) = true :=
    (Text.startsWith_unifyLines hin.1 s).trans hs
  have hdrop : (Text.unifyLines (exclamation :: s)).drop 3 = Text.unifyLines (s.drop 2) :=
    Text.drop_unifyLines hin.1 hs
  have hslash : Text.startsWith "/" (Text.unifyLines (exclamation :: s)) = false := rfl
  have hquestion : Text.startsWith "?" (Text.unifyLines (exclamation :: s)) = false := rfl
  rw [Reading.piece?, hslash, if_neg Bool.false_ne_true, hquestion, if_neg Bool.false_ne_true,
    if_pos hmark, hdrop, Text.after?, Option.map_map] at h
  obtain ⟨⟨before, after⟩, hsplit, he⟩ := Option.map_eq_some_iff.mp h
  cases he
  obtain ⟨before', after', hraw, rfl⟩ :=
    Text.exists_of_splitFirst?_unifyLines hin.2 (by decide) hsplit
  have hlong : 4 < s.length := by
    have hlength := congrArg List.length (Text.eq_append_of_splitFirst? hraw)
    have hthree : ("-->" : Text).length = 3 := rfl
    rw [List.length_drop, List.length_append, List.length_append, hthree] at hlength
    omega
  have hpass : (Text.startsWith "--" s && decide (4 < s.length)) = true :=
    Bool.and_eq_true_iff.mpr ⟨hs, decide_eq_true hlong⟩
  rw [exclamationItem, skipExclamation, hpass, if_pos rfl, Text.afterOrEnd, Text.after?, hraw]
  exact ⟨rfl, rfl⟩

theorem eq_of_piece?_section (hs : Text.startsWith "[CDATA[" s = true)
    (h : Reading.piece? (Text.unifyLines (exclamation :: s)) = some (item, rest)) :
    item = exclamationItem s ∧ rest = (skipExclamation s).unifyLines := by
  have hin : Text.IsInLine "[CDATA[" ∧ Text.IsInLine "]]>" := by decide
  obtain ⟨t, rfl⟩ := List.isPrefixOf_iff_prefix.mp hs
  have hu : Text.unifyLines (exclamation :: ("[CDATA[" ++ t)) = exclamation ::
    Text.unifyLines ("[CDATA[" ++ t) := rfl
  have hmarks : Text.startsWith "/" (Text.unifyLines (exclamation :: ("[CDATA[" ++ t))) = false ∧
      Text.startsWith "?" (Text.unifyLines (exclamation :: ("[CDATA[" ++ t))) = false ∧
      Text.startsWith "!--" (Text.unifyLines (exclamation :: ("[CDATA[" ++ t))) = false ∧
      Text.startsWith "!D" (Text.unifyLines (exclamation :: ("[CDATA[" ++ t))) = false ∧
      Text.startsWith "![" (Text.unifyLines (exclamation :: ("[CDATA[" ++ t))) = true :=
    ⟨rfl, rfl, rfl, rfl, rfl⟩
  obtain ⟨h₁, h₂, h₃, h₄, h₅⟩ := hmarks
  rw [Reading.piece?, h₁, if_neg Bool.false_ne_true, h₂, if_neg Bool.false_ne_true, h₃,
    if_neg Bool.false_ne_true, h₄, if_neg Bool.false_ne_true, if_pos h₅, hu, List.drop_succ_cons,
    List.drop_zero, Reading.section?, Option.map_map] at h
  obtain ⟨⟨before, after⟩, hsplit, he⟩ := Option.map_eq_some_iff.mp h
  cases he
  obtain ⟨before', after', hraw, rfl⟩ :=
    Text.exists_of_splitFirst?_unifyLines hin.2 (by decide) hsplit
  have hopening := @Text.splitFirst?_append_left 0x5D "[CDATA[" (by decide) "]>" t
  obtain ⟨⟨first, last⟩, htail, he⟩ := Option.map_eq_some_iff.mp (hopening.symm.trans hraw)
  cases he
  have hafter : Text.afterOrEnd "]]>" t = after' := by
    rw [Text.afterOrEnd, Text.after?]
    exact congrArg (fun found ↦ (Option.map Prod.snd found).getD []) htail
  have hlong : 8 < ("[CDATA[" ++ t : Text).length := by
    have hlength := congrArg List.length (Text.eq_append_of_splitFirst? htail)
    have hthree : ((0x5D : CodeUnit) :: ("]>" : Text)).length = 3 := rfl
    have hseven : ("[CDATA[" : Text).length = 7 := rfl
    rw [List.length_append, List.length_append, hthree] at hlength
    rw [List.length_append, hseven]
    omega
  have hpass : (Text.startsWith "[CDATA[" ("[CDATA[" ++ t) &&
      decide (8 < ("[CDATA[" ++ t : Text).length)) = true :=
    Bool.and_eq_true_iff.mpr ⟨hs, decide_eq_true hlong⟩
  have hcomment : Text.startsWith "--" ("[CDATA[" ++ t) = false := rfl
  have htype : Text.startsWith "DOCTYPE" ("[CDATA[" ++ t) = false := rfl
  rw [exclamationItem, skipExclamation, hpass, hcomment, htype, Bool.false_and, Bool.false_and,
    Bool.or_false, if_neg Bool.false_ne_true, if_pos rfl, if_neg Bool.false_ne_true,
    if_neg Bool.false_ne_true, if_pos rfl]
  exact ⟨rfl, congrArg Text.unifyLines hafter.symm⟩

theorem eq_of_piece?_exclamation
    (hp : Piece.IsPlain ⟨less :: exclamation :: s, exclamationItem s, skipExclamation s⟩)
    (h : Reading.piece? (Text.unifyLines (exclamation :: s)) = some (item, rest)) :
    item = exclamationItem s ∧ rest = (skipExclamation s).unifyLines := by
  by_cases hcomment : Text.startsWith "--" s = true
  · exact eq_of_piece?_comment hcomment h
  · by_cases hsection : Text.startsWith "[CDATA[" s = true
    · exact eq_of_piece?_section hsection h
    · have hdeclared : isDeclared (less :: exclamation :: s) = true := by
        have hc : Text.startsWith "<!--" (less :: exclamation :: s) = false :=
          Bool.eq_false_iff.mpr hcomment
        have hs : Text.startsWith "<![CDATA[" (less :: exclamation :: s) = false :=
          Bool.eq_false_iff.mpr hsection
        rw [isDeclared, hc, hs]
        rfl
      cases h.symm.trans (hp.2 hdeclared)
      exact ⟨rfl, rfl⟩

theorem outline_of_resume (hc : resume p s = .ok p') (hr : Reading.run r s.unifyLines = .ok r')
    (hp : ∀ piece ∈ outline false s, piece.IsPlain) :
    (outline false s).map Piece.unifyLines = Reading.outline s.unifyLines := by
  induction s using outline_induction false generalizing p r with
  | nil =>
    rw [outline_nil, Text.unifyLines, Text.unifyFrom_nil, Reading.outline]
    rfl
  | exclamation s ih =>
    rw [resume_exclamation] at hc
    rw [outline_exclamation, List.forall_mem_cons] at hp
    obtain ⟨houtline, r₁, hr₁⟩ :=
      Reading.outline_of_run_less hr fun _ _ ↦ eq_of_piece?_exclamation hp.1
    rw [outline_exclamation, List.map_cons, ih hc hr₁ hp.2]
    exact houtline.symm
  | question s ih =>
    rw [resume_question] at hc
    rw [outline_question, List.forall_mem_cons] at hp
    obtain ⟨houtline, r₁, hr₁⟩ :=
      Reading.outline_of_run_less hr fun _ _ ↦ eq_of_piece?_question hp.1
    rw [outline_question, List.map_cons, ih hc hr₁ hp.2]
    exact houtline.symm
  | tag s hs ih =>
    rw [resume_less p hs, run_eq] at hc
    rw [outline_tag false hs, List.forall_mem_cons] at hp
    cases hj : p.judge s (Tag.read s) with
    | error e =>
      rw [hj] at hc
      cases hc
    | ok next =>
      rw [hj] at hc
      obtain ⟨houtline, r₁, hr₁⟩ :=
        Reading.outline_of_run_less hr fun _ _ ↦ eq_of_piece?_tag hj hs hp.1.1
      rw [outline_tag false hs, List.map_cons, ih hc hr₁ hp.2]
      exact houtline.symm
  | text c s hne ih =>
    have hrest := (resume_text hc).1
    rw [dropWhile_cons_of_ne hne] at hrest
    rw [outline_text false hne, List.forall_mem_cons] at hp
    obtain ⟨houtline, r₁, hr₁⟩ := Reading.outline_of_run_text hne hr
    rw [outline_text false hne, List.map_cons, ih hrest hr₁ hp.2]
    exact houtline.symm

theorem outline_of_skipProlog {isStart : Bool} (hc : skipProlog isStart s = .ok (some rest))
    (hrun : run {} rest = .ok p) (hr : Reading.run r s.unifyLines = .ok r')
    (hp : ∀ piece ∈ outline true s, piece.IsPlain) :
    (outline true s).map Piece.unifyLines = Reading.outline s.unifyLines := by
  induction s using outline_induction true generalizing isStart r with
  | nil =>
    rw [skipProlog] at hc
    cases hc
  | exclamation s ih =>
    rw [skipProlog_exclamation] at hc
    rw [outline_exclamation, List.forall_mem_cons] at hp
    obtain ⟨houtline, r₁, hr₁⟩ :=
      Reading.outline_of_run_less hr fun _ _ ↦ eq_of_piece?_exclamation hp.1
    rw [outline_exclamation, List.map_cons, ih hc hr₁ hp.2]
    exact houtline.symm
  | question s ih =>
    have hx : Text.startsWith "!" (question :: s) = false := rfl
    have hq : Text.startsWith "?" (question :: s) = true := rfl
    rw [skipProlog, if_pos rfl, hx, if_neg Bool.false_ne_true, if_pos hq] at hc
    rw [outline_question, List.forall_mem_cons] at hp
    split at hc
    · cases hc
    · obtain ⟨houtline, r₁, hr₁⟩ :=
        Reading.outline_of_run_less hr fun _ _ ↦ eq_of_piece?_question hp.1
      rw [outline_question, List.map_cons, ih hc hr₁ hp.2]
      exact houtline.symm
  | tag s hs _ =>
    rw [skipProlog, if_pos rfl, hs.1, if_neg Bool.false_ne_true, hs.2,
      if_neg Bool.false_ne_true] at hc
    cases hc
    -- From its first tag on the document is like the content of an element.
    have hsame : outline true (less :: rest) = outline false (less :: rest) := by
      rw [outline_tag true hs, outline_tag false hs]
    rw [hsame] at hp ⊢
    exact outline_of_resume ((resume_less {} hs).trans hrun) hr hp
  | text c s hne ih =>
    obtain ⟨⟨isStart', hrest⟩, -⟩ := skipProlog_text hc
    rw [dropWhile_cons_of_ne hne] at hrest
    rw [outline_text true hne, List.forall_mem_cons] at hp
    obtain ⟨houtline, r₁, hr₁⟩ := Reading.outline_of_run_text hne hr
    rw [outline_text true hne, List.map_cons, ih hrest hr₁ hp.2]
    exact houtline.symm

end Check

/-- The reader finds the pieces of a document where the check finds them. -/
theorem outline_of_check {s : Text} {nodes : List Node} (hc : check s = .ok ())
    (hr : readDocument s = .ok nodes) (hp : ∀ piece ∈ Check.outline true s, piece.IsPlain) :
    (Check.outline true s).map Piece.unifyLines = Reading.outline s.unifyLines := by
  obtain ⟨rest, p, hs, hrun⟩ := Check.exists_of_check hc
  obtain ⟨r, hread, -⟩ := exists_of_map_eq_ok hr
  exact Check.outline_of_skipProlog hs hrun hread hp

end Markup
end AnalysisProject
