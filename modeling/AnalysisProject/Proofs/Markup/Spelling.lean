import AnalysisProject.Markup.Name
import AnalysisProject.Markup.Tag

namespace AnalysisProject

open CodeUnit

namespace CodeUnit

def isDelimiter (c : CodeUnit) : Bool :=
  [exclamation, numberSign, ampersand, slash, less, equal, greater, question].contains c

def isPlain (c : CodeUnit) : Bool := !c.isBlank && !c.isQuote && !c.isDelimiter

theorem isPlain_ne {c d : CodeUnit} (h : c.isPlain = true) (hd : d.isPlain = false) : c ≠ d := by
  rintro rfl
  exact absurd h (Bool.eq_false_iff.mp hd)

theorem isBlank_of_isPlain {c : CodeUnit} (h : c.isPlain = true) : c.isBlank = false := by
  simp only [isPlain, Bool.and_eq_true, Bool.not_eq_true'] at h
  exact h.1.1

theorem isQuote_of_isPlain {c : CodeUnit} (h : c.isPlain = true) : c.isQuote = false := by
  simp only [isPlain, Bool.and_eq_true, Bool.not_eq_true'] at h
  exact h.1.2

theorem isXmlSpace_of_isBlank {c : CodeUnit} (h : c.isBlank = false) : c.isXmlSpace = false :=
  Bool.eq_false_iff.mpr fun hc ↦ Bool.eq_false_iff.mp h (isBlank_of_isXmlSpace hc)

theorem isBlank_of_isQuote {c : CodeUnit} (h : c.isQuote = true) : c.isBlank = false := by
  simp only [isQuote, Bool.or_eq_true, beq_iff_eq] at h
  rcases h with rfl | rfl <;> rfl

end CodeUnit

namespace Text

def IsSpace (s : Text) : Prop := ∀ c ∈ s, c.isXmlSpace = true

/-- A name in which nothing stands out, and that nothing is reserved for. -/
structure IsPlainName (s : Text) : Prop where
  isName : s.isName = true
  isPlain : ∀ c ∈ s, c.isPlain = true
  ne_reserved : s ≠ "__proto__" ∧ s ≠ "hasOwnProperty"

instance (s : Text) : Decidable s.IsPlainName :=
  decidable_of_iff (s.isName = true ∧ (∀ c ∈ s, c.isPlain = true) ∧ s ≠ "__proto__" ∧
    s ≠ "hasOwnProperty")
    ⟨fun ⟨h₁, h₂, h₃⟩ ↦ ⟨h₁, h₂, h₃⟩, fun ⟨h₁, h₂, h₃⟩ ↦ ⟨h₁, h₂, h₃⟩⟩

theorem IsPlainName.ne_nil {s : Text} (h : s.IsPlainName) : s ≠ [] := by
  rintro rfl
  exact Bool.false_ne_true h.isName

theorem IsPlainName.not_mem {s : Text} (h : s.IsPlainName) {c : CodeUnit} (hc : c.isPlain = false) :
    c ∉ s :=
  fun hm ↦ isPlain_ne (h.isPlain c hm) hc rfl

theorem IsSpace.trimStart_append {s : Text} (h : s.IsSpace) (t : Text) :
    (s ++ t).trimStart = t.trimStart :=
  List.dropWhile_append_of_pos fun c hc ↦ isBlank_of_isXmlSpace (h c hc)

theorem trimStart_cons {c : CodeUnit} (h : c.isBlank = false) (s : Text) :
    trimStart (c :: s) = c :: s :=
  List.dropWhile_cons_of_neg (by simp [h])

theorem trimStart_concat {c : CodeUnit} (h : c.isBlank = false) (s : Text) :
    trimStart (s ++ [c]) = s.trimStart ++ [c] := by
  induction s with
  | nil => exact trimStart_cons h []
  | cons d s ih =>
    cases hd : d.isBlank with
    | true => simpa only [trimStart, List.cons_append, List.dropWhile_cons, hd, if_true] using ih
    | false => rw [List.cons_append, trimStart_cons hd, trimStart_cons hd, List.cons_append]

theorem endsIn_concat (c : CodeUnit) (s : Text) : endsIn c (s ++ [c]) = true := by
  rw [endsIn, List.getLast?_concat, beq_self_eq_true]

theorem endsIn_eq_false {s : Text} {c : CodeUnit} (h : c ∉ s) : endsIn c s = false := by
  rw [endsIn, beq_eq_false_iff_ne]
  exact fun hc ↦ h (List.mem_of_getLast? hc)

theorem endsIn_trimStart {s : Text} {c : CodeUnit} (h : endsIn c s = false) :
    endsIn c s.trimStart = false := by
  rw [endsIn, beq_eq_false_iff_ne] at h ⊢
  intro ht
  refine h ?_
  rw [← List.takeWhile_append_dropWhile (p := isBlank) (l := s), List.getLast?_append]
  rw [trimStart] at ht
  rw [ht]
  rfl

theorem startsWith_cons (c d : CodeUnit) (pattern s : Text) :
    startsWith (c :: pattern) (d :: s) = (c == d && startsWith pattern s) := rfl

theorem splitFirst?_pattern {c : CodeUnit} {s : Text} (h : c ∉ s) (pattern t : Text) :
    splitFirst? (c :: pattern) (s ++ c :: (pattern ++ t)) = some (s, t) := by
  induction s with
  | nil =>
    have hs : startsWith (c :: pattern) (c :: (pattern ++ t)) = true := by
      rw [startsWith_cons, beq_self_eq_true, Bool.true_and, startsWith, List.isPrefixOf_iff_prefix]
      exact List.prefix_append pattern t
    rw [List.nil_append, splitFirst?, if_pos hs, List.length_cons, List.drop_succ_cons,
      List.drop_left]
  | cons d s ih =>
    obtain ⟨hd, hs⟩ := not_or.mp (mt List.mem_cons.mpr h)
    have hn : startsWith (c :: pattern) (d :: (s ++ c :: (pattern ++ t))) = false := by
      simp [startsWith_cons, hd]
    simp only [List.cons_append, splitFirst?, hn, Bool.false_eq_true, if_false, ih hs,
      Option.map_some]

theorem splitFirst?_unit {c : CodeUnit} {s : Text} (h : c ∉ s) (t : Text) :
    splitFirst? [c] (s ++ c :: t) = some (s, t) := splitFirst?_pattern h [] t

theorem IsPlainName.startsWith_eq_false {s : Text} (h : s.IsPlainName) {c : CodeUnit}
    (hc : c.isPlain = false) (pattern rest : Text) : startsWith (c :: pattern) (s ++ rest) =
      false := by
  obtain ⟨d, t, rfl⟩ := List.exists_cons_of_ne_nil h.ne_nil
  have hd : d ≠ c := isPlain_ne (h.isPlain d (List.mem_cons_self ..)) hc
  rw [List.cons_append, startsWith_cons, beq_eq_false_iff_ne.mpr hd.symm, Bool.false_and]

end Text

namespace Markup

structure WrittenAttribute where
  space : Text
  name : Text
  beforeEquals : Text := []
  afterEquals : Text := []
  mark : CodeUnit
  raw : Text

namespace WrittenAttribute

def assignment (a : WrittenAttribute) : Text :=
  a.beforeEquals ++ equal :: (a.afterEquals ++ a.mark :: (a.raw ++ [a.mark]))

def text (a : WrittenAttribute) : Text := a.space ++ (a.name ++ a.assignment)

structure IsSound (a : WrittenAttribute) : Prop where
  space : a.space.IsSpace
  name : a.name.IsPlainName
  beforeEquals : a.beforeEquals.IsSpace
  afterEquals : a.afterEquals.IsSpace
  mark : a.mark.isQuote = true
  raw : a.mark ∉ a.raw

end WrittenAttribute

namespace Attribute

variable {a : WrittenAttribute}

theorem isNameUnit_of_isPlain {c : CodeUnit} (h : c.isPlain = true) : isNameUnit c = true := by
  simp [isNameUnit, isBlank_of_isPlain h, isPlain_ne h (show equal.isPlain = false from rfl)]

theorem isNameUnit_of_isXmlSpace {c : CodeUnit} (h : c.isXmlSpace = true) :
    isNameUnit c = false := by
  simp [isNameUnit, isBlank_of_isXmlSpace h]

theorem quoted?_cons {q : CodeUnit} (hq : q.isQuote = true) {raw : Text} (hr : q ∉ raw)
    (rest : Text) :
    quoted? (q :: (raw ++ q :: rest)) = some (raw, rest) := by
  rw [quoted?, if_pos hq, Text.splitFirst?_unit hr]

theorem afterEquals?_append {space : Text} (h : space.IsSpace) (rest : Text) :
    afterEquals? (space ++ equal :: rest) = some rest := by
  rw [afterEquals?, h.trimStart_append, Text.trimStart_cons rfl]
  rfl

theorem quoted?_trimStart_append (h : a.IsSound) (rest : Text) :
    quoted? (Text.trimStart (a.afterEquals ++ a.mark :: (a.raw ++ a.mark :: rest))) =
      some (a.raw, rest) := by
  rw [h.afterEquals.trimStart_append, Text.trimStart_cons (isBlank_of_isQuote h.mark),
    quoted?_cons h.mark h.raw]

theorem assignment_append (a : WrittenAttribute) (rest : Text) :
    a.assignment ++ rest = a.beforeEquals ++ equal ::
      (a.afterEquals ++ a.mark :: (a.raw ++ a.mark :: rest)) := by
  simp [WrittenAttribute.assignment]

theorem span_name (h : a.IsSound) {s : Text} (hs : ∀ c ∈ s, c.isPlain = true) (rest : Text) :
    (s ++ (a.assignment ++ rest)).takeWhile isNameUnit = s ∧
      (s ++ (a.assignment ++ rest)).dropWhile isNameUnit = a.assignment ++ rest := by
  have hn : ∀ c ∈ s, isNameUnit c = true := fun c hc ↦ isNameUnit_of_isPlain (hs c hc)
  rw [List.takeWhile_append_of_pos hn, List.dropWhile_append_of_pos hn, assignment_append]
  cases hb : a.beforeEquals with
  | nil => exact ⟨by simp [isNameUnit], by simp [isNameUnit]⟩
  | cons d t =>
    have hd : isNameUnit d = false :=
      isNameUnit_of_isXmlSpace (h.beforeEquals d (hb ▸ List.mem_cons_self ..))
    exact ⟨by simp [hd], by simp [hd]⟩

theorem skipAssignment_append (h : a.IsSound) {s : Text} (hs : ∀ c ∈ s, c.isPlain = true)
    (rest : Text) :
    skipAssignment (s ++ (a.assignment ++ rest)) = rest := by
  rw [skipAssignment, (span_name h hs rest).2, assignment_append, skipEquals,
    afterEquals?_append h.beforeEquals, Option.getD_some, skipValue, quoted?_trimStart_append h]
  rfl

theorem assigned?_append (h : a.IsSound) (rest : Text) :
    assigned? (a.assignment ++ rest) = some (a.raw, rest) := by
  rw [assigned?, assignment_append, afterEquals?_append h.beforeEquals, Option.bind_some,
    quoted?_trimStart_append h]

structure Mark.IsSound (m : Mark) (name : Text) : Prop where
  name : m.name = name
  isSpaced : m.isSpaced = true
  hasEquals : m.hasEquals = true
  hasValue : m.hasValue = true

theorem marks_append (h : a.IsSound) (hs : a.space ≠ []) (offset : Nat) (rest : Text) :
    ∃ m next, marks offset (a.text ++ rest) = m :: marks next rest ∧ m.IsSound a.name := by
  obtain ⟨c, t, hn⟩ := List.exists_cons_of_ne_nil h.name.ne_nil
  have hplain : ∀ d ∈ c :: t, d.isPlain = true := hn ▸ h.name.isPlain
  have hc : c.isPlain = true := hplain c (List.mem_cons_self ..)
  have ht : ∀ d ∈ t, d.isPlain = true := fun d hd ↦ hplain d (List.mem_cons_of_mem _ hd)
  have htext : a.text ++ rest = a.space ++ c :: (t ++ (a.assignment ++ rest)) := by
    simp [WrittenAttribute.text, hn]
  have htrim : Text.trimStart (a.text ++ rest) = c :: (t ++ (a.assignment ++ rest)) := by
    rw [htext, h.space.trimStart_append, Text.trimStart_cons (isBlank_of_isPlain hc)]
  have hspan := span_name h ht rest
  rw [marks]
  split
  · next hnil => rw [htrim] at hnil; contradiction
  · next d s hcons =>
    rw [htrim, List.cons.injEq] at hcons
    obtain ⟨rfl, rfl⟩ := hcons
    rw [if_neg (isPlain_ne hc rfl), skipAssignment_append h ht]
    refine ⟨_, _, rfl, ?_, ?_, ?_, ?_⟩
    · simp only [hspan.1, hn]
    · have := List.length_pos_iff.mpr hs
      simp only [htext, List.length_append, List.length_cons, decide_eq_true_eq]
      omega
    · simp only [hspan.2]
      rw [assignment_append, afterEquals?_append h.beforeEquals, Option.isSome_some]
    · simp only [hspan.2]
      rw [assignment_append, skipEquals, afterEquals?_append h.beforeEquals, Option.getD_some,
        quoted?_trimStart_append h, Option.isSome_some]

theorem assignments_append (h : a.IsSound) (rest : Text) :
    assignments (a.text ++ rest) = (a.name, a.raw) :: assignments rest := by
  obtain ⟨c, t, hn⟩ := List.exists_cons_of_ne_nil h.name.ne_nil
  have hplain : ∀ d ∈ c :: t, d.isPlain = true := hn ▸ h.name.isPlain
  have hc : c.isPlain = true := hplain c (List.mem_cons_self ..)
  have ht : ∀ d ∈ t, d.isPlain = true := fun d hd ↦ hplain d (List.mem_cons_of_mem _ hd)
  have hdrop : (a.text ++ rest).dropWhile (!isNameUnit ·) = c :: (t ++ (a.assignment ++ rest)) := by
    have htext : a.text ++ rest = a.space ++ c :: (t ++ (a.assignment ++ rest)) := by
      simp [WrittenAttribute.text, hn]
    rw [htext, List.dropWhile_append_of_pos fun d hd ↦
      by simp [isNameUnit_of_isXmlSpace (h.space d hd)]]
    simp [isNameUnit_of_isPlain hc]
  have hspan := span_name h ht rest
  rw [assignments]
  split
  · next hnil => rw [hdrop] at hnil; contradiction
  · next d s hcons =>
    rw [hdrop, List.cons.injEq] at hcons
    obtain ⟨rfl, rfl⟩ := hcons
    have ha : assigned? ((t ++ (a.assignment ++ rest)).dropWhile isNameUnit) =
        some (a.raw, rest) := by
      rw [hspan.2, assigned?_append h]
    split
    · next value next hv =>
      rw [ha, Option.some.injEq, Prod.mk.injEq] at hv
      obtain ⟨rfl, rfl⟩ := hv
      rw [hspan.1, hn]
    · next hv => rw [ha] at hv; contradiction

theorem marks_of_isSpace {s : Text} (h : s.IsSpace) (offset : Nat) : marks offset s = [] := by
  have ht : s.trimStart = [] := (List.append_nil s ▸ h.trimStart_append []).trans rfl
  rw [marks]
  split
  · rfl
  · next hc => rw [ht] at hc; contradiction

theorem assignments_of_isSpace {s : Text} (h : s.IsSpace) : assignments s = [] := by
  have hs : ∀ c ∈ s, (!isNameUnit c) = true :=
    fun c hc ↦ by simp [isNameUnit_of_isXmlSpace (h c hc)]
  have ht : s.dropWhile (!isNameUnit ·) = [] := by
    have hd : (s ++ []).dropWhile (!isNameUnit ·) = [] := List.dropWhile_append_of_pos hs
    rwa [List.append_nil] at hd
  rw [assignments]
  split
  · rfl
  · next hc => rw [ht] at hc; contradiction

theorem assignments_flatMap {attributes : List WrittenAttribute} (h : ∀ a ∈ attributes, a.IsSound)
    {last : Text} (hl : last.IsSpace) :
    assignments (attributes.flatMap WrittenAttribute.text ++ last) = attributes.map fun a ↦
      (a.name, a.raw) := by
  induction attributes with
  | nil => exact assignments_of_isSpace hl
  | cons a attributes ih =>
    rw [List.flatMap_cons, List.append_assoc, assignments_append (h a (List.mem_cons_self ..)),
      ih fun b hb ↦ h b (List.mem_cons_of_mem _ hb), List.map_cons]

end Attribute
namespace TagSpan

def prepend (s : Text) (t : TagSpan) : TagSpan := { t with inside := s ++ t.inside }

theorem push_prepend (c : CodeUnit) (s : Text) (t : TagSpan) : (t.prepend s).push c =
    t.prepend (c :: s) := rfl

theorem prepend_prepend (s t : Text) (span : TagSpan) :
    (span.prepend t).prepend s = span.prepend (s ++ t) := by
  simp only [prepend, List.append_assoc]

end TagSpan

variable {outside : CodeUnit → CodeUnit}

theorem spanTag_append {s : Text} (h : ∀ c ∈ s, c ≠ greater ∧ c.isQuote = false) (rest : Text) :
    spanTag outside none (s ++ rest) = (spanTag outside none rest).prepend (s.map outside) := by
  induction s with
  | nil => rfl
  | cons c s ih =>
    obtain ⟨hg, hq⟩ := h c (List.mem_cons_self ..)
    rw [List.cons_append, spanTag, if_neg hg, hq, if_neg Bool.false_ne_true,
      ih fun d hd ↦ h d (List.mem_cons_of_mem _ hd), TagSpan.push_prepend, List.map_cons]

theorem spanTag_raw {q : CodeUnit} {raw : Text} (h : q ∉ raw) (rest : Text) :
    spanTag outside (some q) (raw ++ q :: rest) =
      (spanTag outside none rest).prepend (raw ++ [q]) := by
  induction raw with
  | nil => rw [List.nil_append, spanTag, if_pos rfl]; rfl
  | cons c raw ih =>
    obtain ⟨hc, hr⟩ := not_or.mp (mt List.mem_cons.mpr h)
    rw [List.cons_append, spanTag, if_neg (Ne.symm hc), ih hr]
    rfl

theorem spanTag_quoted {q : CodeUnit} (hq : q.isQuote = true) {raw : Text} (h : q ∉ raw)
    (rest : Text) :
    spanTag outside none (q :: (raw ++ q :: rest)) =
      (spanTag outside none rest).prepend (q :: (raw ++ [q])) := by
  have hg : q ≠ greater := by
    rintro rfl
    exact Bool.false_ne_true hq
  rw [spanTag, if_neg hg, if_pos hq, spanTag_raw h]
  rfl

/-- A change of units in a tag that keeps white space white and everything else as it is. -/
structure KeepsSpace (outside : CodeUnit → CodeUnit) : Prop where
  isXmlSpace : ∀ c, c.isXmlSpace = true → (outside c).isXmlSpace = true
  eq_self : ∀ c, c.isXmlSpace = false → outside c = c

theorem KeepsSpace.id : KeepsSpace id := ⟨fun _ h ↦ h, fun _ _ ↦ rfl⟩

theorem KeepsSpace.map_isSpace (h : KeepsSpace outside) {s : Text} (hs : s.IsSpace) :
    Text.IsSpace (s.map outside) := by
  intro c hc
  obtain ⟨d, hd, rfl⟩ := List.mem_map.mp hc
  exact h.isXmlSpace d (hs d hd)

theorem KeepsSpace.map_eq_self (h : KeepsSpace outside) {s : Text}
    (hs : ∀ c ∈ s, c.isXmlSpace = false) :
    s.map outside = s := by
  rw [List.map_congr_left fun c hc ↦ h.eq_self c (hs c hc), List.map_id'']
  exact fun _ ↦ rfl

theorem isXmlSpace_of_isPlain {c : CodeUnit} (h : c.isPlain = true) : c.isXmlSpace = false :=
  isXmlSpace_of_isBlank (isBlank_of_isPlain h)

theorem outside_quotes_of_isXmlSpace {c : CodeUnit} (h : c.isXmlSpace = true) :
    c ≠ greater ∧ c.isQuote = false := by
  simp only [isXmlSpace, Bool.or_eq_true, beq_iff_eq] at h
  rcases h with ((rfl | rfl) | rfl) | rfl <;> exact ⟨by decide, rfl⟩

theorem outside_quotes_of_isPlain {c : CodeUnit} (h : c.isPlain = true) :
    c ≠ greater ∧ c.isQuote = false :=
  ⟨isPlain_ne h rfl, isQuote_of_isPlain h⟩

namespace WrittenAttribute

def mapSpace (outside : CodeUnit → CodeUnit) (a : WrittenAttribute) : WrittenAttribute :=
  { a with
    space := a.space.map outside
    beforeEquals := a.beforeEquals.map outside
    afterEquals := a.afterEquals.map outside }

theorem IsSound.mapSpace {a : WrittenAttribute} (ha : a.IsSound) (h : KeepsSpace outside) :
    (a.mapSpace outside).IsSound :=
  { ha with
    space := h.map_isSpace ha.space
    beforeEquals := h.map_isSpace ha.beforeEquals
    afterEquals := h.map_isSpace ha.afterEquals }

theorem IsSound.spanTag_text {a : WrittenAttribute} (ha : a.IsSound) (h : KeepsSpace outside)
    (rest : Text) :
    spanTag outside none (a.text ++ rest) =
      (spanTag outside none rest).prepend (a.mapSpace outside).text := by
  have hbefore : ∀ c ∈ a.space ++ (a.name ++ (a.beforeEquals ++ equal :: a.afterEquals)),
      c ≠ greater ∧ c.isQuote = false := by
    intro c hc
    simp only [List.mem_append, List.mem_cons] at hc
    rcases hc with hc | hc | hc | rfl | hc
    · exact outside_quotes_of_isXmlSpace (ha.space c hc)
    · exact outside_quotes_of_isPlain (ha.name.isPlain c hc)
    · exact outside_quotes_of_isXmlSpace (ha.beforeEquals c hc)
    · exact ⟨by decide, rfl⟩
    · exact outside_quotes_of_isXmlSpace (ha.afterEquals c hc)
  have htext : a.text ++ rest = (a.space ++ (a.name ++ (a.beforeEquals ++ equal :: a.afterEquals)))
      ++ a.mark :: (a.raw ++ a.mark :: rest) := by
    simp [text, assignment]
  have hname : a.name.map outside = a.name :=
    h.map_eq_self fun c hc ↦ isXmlSpace_of_isPlain (ha.name.isPlain c hc)
  rw [htext, spanTag_append hbefore, spanTag_quoted ha.mark ha.raw, TagSpan.prepend_prepend]
  simp [text, assignment, WrittenAttribute.mapSpace, hname, h.eq_self equal rfl]

theorem spanTag_flatMap {attributes : List WrittenAttribute} (ha : ∀ a ∈ attributes, a.IsSound)
    (h : KeepsSpace outside) (rest : Text) :
    spanTag outside none (attributes.flatMap text ++ rest) =
      (spanTag outside none rest).prepend ((attributes.map (mapSpace outside)).flatMap text) := by
  induction attributes with
  | nil => rfl
  | cons a attributes ih =>
    rw [List.flatMap_cons, List.append_assoc, (ha a (List.mem_cons_self ..)).spanTag_text h,
      ih fun b hb ↦ ha b (List.mem_cons_of_mem _ hb), TagSpan.prepend_prepend, List.map_cons,
      List.flatMap_cons]

theorem mapSpace_id (a : WrittenAttribute) : a.mapSpace id = a := by
  simp only [mapSpace, List.map_id]

theorem endsIn_text (a : WrittenAttribute) (s : Text) {c : CodeUnit} (h : a.mark ≠ c) :
    Text.endsIn c (s ++ a.text) = false := by
  have ht : s ++ a.text =
    (s ++ (a.space ++ (a.name ++ (a.beforeEquals ++ equal :: (a.afterEquals ++ a.mark :: a.raw)))))
      ++ [a.mark] := by
    simp [text, assignment]
  rw [Text.endsIn, ht, List.getLast?_append]
  simpa using h

end WrittenAttribute

structure WrittenTag where
  name : Text
  attributes : List WrittenAttribute := []
  last : Text := []

namespace WrittenTag

def inside (t : WrittenTag) : Text := t.attributes.flatMap WrittenAttribute.text ++ t.last

def openText (t : WrittenTag) : Text := less :: (t.name ++ (t.inside ++ [greater]))

def emptyText (t : WrittenTag) : Text := less :: (t.name ++ (t.inside ++ [slash, greater]))

def closeText (name space : Text) : Text := less :: slash :: (name ++ (space ++ [greater]))

structure IsSound (t : WrittenTag) : Prop where
  name : t.name.IsPlainName
  attributes : ∀ a ∈ t.attributes, a.IsSound ∧ a.space ≠ []
  nodup : (t.attributes.map WrittenAttribute.name).Nodup
  last : t.last.IsSpace

def assignments (t : WrittenTag) : List (Text × Text) := t.attributes.map fun a ↦ (a.name, a.raw)

def mapSpace (outside : CodeUnit → CodeUnit) (t : WrittenTag) : WrittenTag :=
  { t with attributes := t.attributes.map (·.mapSpace outside), last := t.last.map outside }

theorem assignments_mapSpace (t : WrittenTag) (outside : CodeUnit → CodeUnit) :
    (t.mapSpace outside).assignments = t.assignments := by
  simp [assignments, mapSpace, WrittenAttribute.mapSpace]

theorem mapSpace_id (t : WrittenTag) : t.mapSpace id = t := by
  simp only [mapSpace, WrittenAttribute.mapSpace_id, List.map_id, List.map_id']

theorem IsSound.mapSpace {t : WrittenTag} (ht : t.IsSound) (h : KeepsSpace outside) :
    (t.mapSpace outside).IsSound where
  name := ht.name
  attributes := by
    intro b hb
    obtain ⟨a, ha, rfl⟩ := List.mem_map.mp hb
    obtain ⟨hs, hn⟩ := ht.attributes a ha
    exact ⟨hs.mapSpace h, by simpa [WrittenAttribute.mapSpace] using hn⟩
  nodup := by
    simpa [WrittenTag.mapSpace, WrittenAttribute.mapSpace, Function.comp_def] using ht.nodup
  last := h.map_isSpace ht.last

theorem IsSound.spanTag_inside {t : WrittenTag} (ht : t.IsSound) (h : KeepsSpace outside)
    (rest : Text) :
    spanTag outside none (t.inside ++ rest) = (spanTag outside none rest).prepend
      (t.mapSpace outside).inside := by
  rw [inside, WrittenTag.mapSpace, inside, List.append_assoc,
    WrittenAttribute.spanTag_flatMap (fun a ha ↦ (ht.attributes a ha).1) h,
    spanTag_append fun c hc ↦ outside_quotes_of_isXmlSpace (ht.last c hc), TagSpan.prepend_prepend]

theorem IsSound.inside_cases {t : WrittenTag} (ht : t.IsSound) :
    t.inside = [] ∨ ∃ c s, t.inside = c :: s ∧ c.isXmlSpace = true := by
  cases ha : t.attributes with
  | nil =>
    cases hl : t.last with
    | nil => exact .inl (by simp [inside, ha, hl])
    | cons c s =>
      exact .inr ⟨c, s, by simp [inside, ha, hl], ht.last c (hl ▸ List.mem_cons_self ..)⟩
  | cons a attributes =>
    obtain ⟨hs, hn⟩ := ht.attributes a (ha ▸ List.mem_cons_self ..)
    obtain ⟨c, s, hc⟩ := List.exists_cons_of_ne_nil hn
    have hi : t.inside =
        c :: (s ++ (a.name ++ a.assignment) ++ attributes.flatMap WrittenAttribute.text ++
          t.last) := by
      simp [inside, ha, WrittenAttribute.text, hc]
    exact .inr ⟨c, _, hi, hs.space c (hc ▸ List.mem_cons_self ..)⟩

theorem IsSound.endsIn_inside {t : WrittenTag} (ht : t.IsSound) :
    Text.endsIn slash t.inside = false := by
  rcases List.eq_nil_or_concat t.last with hl | ⟨s, c, hl⟩
  · rcases List.eq_nil_or_concat t.attributes with ha | ⟨as, a, ha⟩
    · rw [inside, hl, ha]
      rfl
    · have hm : a.mark ≠ slash := by
        have hq := (ht.attributes a (by simp [ha])).1.mark
        rintro h
        rw [h] at hq
        cases hq
      rw [inside, hl, ha, List.append_nil, List.concat_eq_append, List.flatMap_append,
        List.flatMap_singleton]
      exact a.endsIn_text _ hm
  · have hc : c ≠ slash := by
      have hx := ht.last c (by simp [hl])
      rintro rfl
      cases hx
    rw [inside, hl, List.concat_eq_append, ← List.append_assoc, Text.endsIn, List.getLast?_concat]
    simpa using hc

end WrittenTag
end Markup
end AnalysisProject
