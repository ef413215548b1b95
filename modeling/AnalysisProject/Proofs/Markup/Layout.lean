import AnalysisProject.Markup.Printer
import AnalysisProject.Proofs.Markup.Spelling
import AnalysisProject.Proofs.Text.Seam
import AnalysisProject.Proofs.Text.Search

namespace AnalysisProject.Markup

open CodeUnit

namespace Attributes

def tag (attributes : Attributes) (name : Text) : WrittenTag where
  name := name
  attributes := attributes.map fun (key, value) ↦
    { space := [space], name := key, mark := quote, raw := Reference.escape value }

def mapValues (f : Text → Text) (attributes : Attributes) : Attributes :=
  attributes.map fun (key, value) ↦ (key, f value)

def weight (attributes : Attributes) : Nat :=
  (attributes.map fun (_, value) ↦ Reference.weight value).foldr (· + ·) 0

theorem tag_inside_nil (name : Text) : (tag [] name).inside = [] := rfl

theorem tag_inside_cons (key value : Text) (attributes : Attributes) (name : Text) :
    (tag ((key, value) :: attributes) name).inside =
      (space :: (key ++ [equal, quote])) ++
        (Reference.escape value ++ quote :: (attributes.tag name).inside) := by
  simp [tag, WrittenTag.inside, WrittenAttribute.text, WrittenAttribute.assignment]

end Attributes

/-- The names in a tag are ASCII, stand out in no way and differ. -/
structure IsPlainTag (name : Text) (attributes : Attributes) : Prop where
  names : ∀ s ∈ name :: attributes.map Prod.fst, s.IsPlainName ∧ ∀ c ∈ s, c.isSeam = true
  nodup : (attributes.map Prod.fst).Nodup

instance (name : Text) (attributes : Attributes) : Decidable (IsPlainTag name attributes) :=
  decidable_of_iff ((∀ s ∈ name :: attributes.map Prod.fst, s.IsPlainName ∧ ∀ c ∈ s,
    c.isSeam = true) ∧
    (attributes.map Prod.fst).Nodup) ⟨fun ⟨h₁, h₂⟩ ↦ ⟨h₁, h₂⟩, fun ⟨h₁, h₂⟩ ↦ ⟨h₁, h₂⟩⟩

namespace IsPlainTag

variable {name : Text} {attributes : Attributes} (h : IsPlainTag name attributes)

include h

theorem name_isPlainName : name.IsPlainName := (h.names name (List.mem_cons_self ..)).1

theorem not_mem {s : Text} (hs : s ∈ name :: attributes.map Prod.fst) {c : CodeUnit}
    (hc : c.isPlain = false) : c ∉ s :=
  (h.names s hs).1.not_mem hc

theorem isSound : (attributes.tag name).IsSound where
  name := h.name_isPlainName
  attributes := by
    intro a ha
    obtain ⟨⟨key, value⟩, hm, rfl⟩ := List.mem_map.mp ha
    have hkey := (h.names key (List.mem_cons_of_mem _ (List.mem_map_of_mem hm))).1
    refine ⟨⟨fun c hc ↦ ?_, hkey, ?_, ?_, rfl, Reference.not_mem_escape rfl value⟩,
      List.cons_ne_nil _ _⟩
    · rw [List.mem_singleton.mp hc]
      rfl
    · exact fun _ hc ↦ absurd hc List.not_mem_nil
    · exact fun _ hc ↦ absurd hc List.not_mem_nil
  nodup := by
    rw [Attributes.tag, List.map_map]
    exact h.nodup
  last := fun _ hc ↦ absurd hc List.not_mem_nil

theorem mapValues (f : Text → Text) : IsPlainTag name (attributes.mapValues f) := by
  have hkeys : (attributes.mapValues f).map Prod.fst = attributes.map Prod.fst := by
    rw [Attributes.mapValues, List.map_map]
    rfl
  exact ⟨hkeys ▸ h.names, hkeys ▸ h.nodup⟩

end IsPlainTag

namespace Node

def lead (gap : Nat → Text) (depth : Nat) (node : Node) : Text :=
  if node.isElement then gap depth else []

def spell (gap : Nat → Text) (depth : Nat) : Node → Text
  | text s => Reference.escape s
  | element name attributes children =>
    let content :=
      children.flatMap fun child ↦ child.lead gap (depth + 1) ++ spell gap (depth + 1) child
    if content.isEmpty then (attributes.tag name).emptyText
    else (attributes.tag name).openText ++ (content ++
      ((if children.any isElement then gap depth else []) ++ WrittenTag.closeText name []))

def mapTexts (f : Text → Text) : Node → Node
  | text s => text (f s)
  | element name attributes children =>
    element name (attributes.mapValues f) (children.map (mapTexts f))

def weight : Node → Nat
  | text s => Reference.weight s
  | element _ attributes children => attributes.weight + (children.map weight).foldr (· + ·) 0

/-- An element that holds nothing, a text or elements, down to some height. -/
inductive IsSound : Nat → Node → Prop
  | empty {height : Nat} {name : Text} {attributes : Attributes} :
      IsPlainTag name attributes → IsSound height (element name attributes [])
  | text {height : Nat} {name : Text} {attributes : Attributes} {s : Text} :
      IsPlainTag name attributes → s ≠ [] → IsSound height (element name attributes [text s])
  | container {height : Nat} {name : Text} {attributes : Attributes} {children : List Node} :
      IsPlainTag name attributes → children ≠ [] → (∀ child ∈ children, IsSound height child) →
      IsSound (height + 1) (element name attributes children)

section Spell

variable {gap : Nat → Text} {depth height : Nat} {name : Text} {attributes : Attributes}

theorem IsSound.isElement {node : Node} (h : node.IsSound height) : node.isElement = true := by
  cases h <;> rfl

theorem IsSound.mapTexts {f : Text → Text} (hf : ∀ s, f s = [] → s = []) {node : Node}
    (h : node.IsSound height) :
    (node.mapTexts f).IsSound height := by
  induction h with
  | empty ht =>
    rw [Node.mapTexts]
    exact .empty (ht.mapValues f)
  | text ht hs =>
    rw [Node.mapTexts, List.map_singleton, Node.mapTexts]
    exact .text (ht.mapValues f) fun he ↦ hs (hf _ he)
  | container ht hc _ ih =>
    rw [Node.mapTexts]
    refine .container (ht.mapValues f) (by simpa using hc) fun changed hm ↦ ?_
    obtain ⟨child, hchild, rfl⟩ := List.mem_map.mp hm
    exact ih child hchild

theorem spell_empty :
    spell gap depth (element name attributes []) = (attributes.tag name).emptyText := by
  rw [spell]
  rfl

theorem spell_text {s : Text} (hs : s ≠ []) : spell gap depth (element name attributes [text s]) =
    (attributes.tag name).openText ++ (Reference.escape s ++ WrittenTag.closeText name []) := by
  have hc :
    [text s].flatMap (fun child ↦ child.lead gap (depth + 1) ++ spell gap (depth + 1) child) =
      Reference.escape s := by
    rw [List.flatMap_singleton, spell]
    rfl
  have hne : (Reference.escape s).isEmpty = false :=
    List.isEmpty_eq_false_iff.mpr fun he ↦ hs (Reference.escape_eq_nil_iff.mp he)
  rw [spell, hc, hne]
  rfl

theorem IsSound.exists_spell_eq {node : Node} (h : node.IsSound height) (gap : Nat → Text)
    (depth : Nat) :
    ∃ s, node.spell gap depth = less :: (s ++ [greater]) := by
  have hempty (t : WrittenTag) : ∃ s, t.emptyText = less :: (s ++ [greater]) :=
    ⟨t.name ++ (t.inside ++ [slash]), by simp [WrittenTag.emptyText]⟩
  have hopen (t : WrittenTag) (s name : Text) :
      ∃ r, t.openText ++ (s ++ WrittenTag.closeText name []) = less :: (r ++ [greater]) :=
    ⟨t.name ++ (t.inside ++ [greater]) ++ (s ++ less :: slash :: name),
      by simp [WrittenTag.openText, WrittenTag.closeText]⟩
  cases h with
  | empty _ => rw [spell_empty]; exact hempty _
  | text _ hs => rw [spell_text hs]; exact hopen _ _ _
  | container _ hne hc =>
    rw [spell]
    split
    · exact hempty _
    · rw [← List.append_assoc (List.flatMap _ _)]
      exact hopen _ _ _

theorem spell_container {children : List Node} (hne : children ≠ [])
    (h : ∀ child ∈ children, child.IsSound height) :
    spell gap depth (element name attributes children) = (attributes.tag name).openText
      ++ (children.flatMap (fun child ↦ gap (depth + 1) ++ spell gap (depth + 1) child)
        ++ (gap depth ++ WrittenTag.closeText name [])) := by
  have hlead :
    children.flatMap (fun child ↦ child.lead gap (depth + 1) ++ spell gap (depth + 1) child) =
      children.flatMap fun child ↦ gap (depth + 1) ++ spell gap (depth + 1) child := by
    simp only [List.flatMap_def]
    refine congrArg List.flatten (List.map_congr_left fun child hm ↦ ?_)
    rw [lead, if_pos (h child hm).isElement]
  obtain ⟨child, more, rfl⟩ := List.exists_cons_of_ne_nil hne
  have hchild := h child (List.mem_cons_self ..)
  have hspell : spell gap (depth + 1) child ≠ [] := by
    obtain ⟨s, hs⟩ := hchild.exists_spell_eq gap (depth + 1)
    exact hs ▸ List.cons_ne_nil _ _
  have hcontent :
    ((child :: more).flatMap fun child ↦ gap (depth + 1) ++ spell gap (depth + 1) child).isEmpty =
      false := by
    rw [List.isEmpty_eq_false_iff, List.flatMap_cons]
    exact List.append_ne_nil_of_left_ne_nil (List.append_ne_nil_of_right_ne_nil _ hspell) _
  have hany : (child :: more).any isElement = true := by
    rw [List.any_cons, hchild.isElement, Bool.true_or]
  rw [spell, hlead, hcontent, hany]
  rfl

end Spell

section Unit

def gapOf (unit : Text) (depth : Nat) : Text :=
  if unit.isEmpty then [] else lineFeed :: (List.replicate depth unit).flatten

variable (unit : Text)

theorem gapOf_succ (depth : Nat) :
    gapOf unit (depth + 1) = if (gapOf unit depth).isEmpty then []
      else gapOf unit depth ++ unit := by
  cases h : unit.isEmpty with
  | true => simp [gapOf, h]
  | false => simp [gapOf, h, List.replicate_succ']

theorem mem_gapOf {depth : Nat} {c : CodeUnit} (h : c ∈ gapOf unit depth) :
    c = lineFeed ∨ c ∈ unit := by
  rw [gapOf] at h
  split at h
  · cases h
  · rcases List.mem_cons.mp h with rfl | h
    · exact .inl rfl
    · obtain ⟨s, hs, hc⟩ := List.mem_flatten.mp h
      exact .inr (List.eq_of_mem_replicate hs ▸ hc)

theorem render_attributes (name : Text) (attributes : Attributes) (indent rest : Text) :
    Text.join [indent, "<", name, attributes.render] ++ rest =
      indent ++ (less :: (name ++ ((attributes.tag name).inside ++ rest))) := by
  have hinside : (attributes.tag name).inside = attributes.render := by
    rw [WrittenTag.inside, Attributes.tag, List.flatMap_map, Attributes.render, List.append_nil]
    rfl
  rw [hinside]
  simp [Text.join]
  rfl

section Enclose

variable (indent name : Text) (attributes : Attributes)

theorem enclose_nil :
    enclose unit indent name attributes [] = indent ++ (attributes.tag name).emptyText :=
  render_attributes name attributes indent [slash, greater]

/-- Content in which nothing looks like a tag stands directly between the tags. -/
theorem enclose_of_not_mem {content : Text} (hne : content ≠ []) (hl : less ∉ content)
    (hg : greater ∉ content) :
    enclose unit indent name attributes content =
      indent ++ ((attributes.tag name).openText ++ (content ++ WrittenTag.closeText name [])) := by
  have hends : Text.endsIn greater content = false := Text.endsIn_eq_false hg
  have hempty : Text.occursIn "/>" content = false :=
    Text.occursIn_eq_false (c := greater) (by decide) hg
  have hclose : Text.occursIn "</" content = false :=
    Text.occursIn_eq_false (c := less) (by decide) hl
  rw [enclose, if_neg (mt List.isEmpty_iff.mp hne), if_neg (ne_true_of_eq_false hends), hempty,
    hclose, Bool.or_false, Bool.and_false, if_neg Bool.false_ne_true, Text.join, List.flatten_cons,
    render_attributes]
  simp [WrittenTag.openText, WrittenTag.closeText]
  rfl

theorem enclose_of_endsIn {content : Text} (h : Text.endsIn greater content = true) :
    enclose unit indent name attributes content =
      indent ++ ((attributes.tag name).openText ++
        (content ++ (indent ++ WrittenTag.closeText name []))) := by
  have hne : content ≠ [] := by
    rintro rfl
    cases h
  rw [enclose, if_neg (mt List.isEmpty_iff.mp hne), if_pos h, Text.join, List.flatten_cons,
    render_attributes]
  simp [WrittenTag.openText, WrittenTag.closeText]
  rfl

end Enclose

theorem renderAll_eq_flatMap (indent : Text) (nodes : List Node) :
    renderAll unit indent nodes = nodes.flatMap (render unit indent) := by
  induction nodes with
  | nil => rfl
  | cons node nodes ih => rw [renderAll, ih, List.flatMap_cons]

/-- Writing lays the tree out: no data is ever taken for a tag when an element is set around its
content. -/
theorem IsSound.render_eq_spell {height : Nat} {node : Node} (h : node.IsSound height)
    (depth : Nat) :
    node.render unit (gapOf unit depth) = gapOf unit depth ++ node.spell (gapOf unit) depth := by
  induction h generalizing depth with
  | empty ht =>
    rw [spell_empty, render, renderAll, enclose_nil]
  | @text _ name attributes s ht hs =>
    have hne : Reference.escape s ≠ [] := mt Reference.escape_eq_nil_iff.mp hs
    rw [spell_text hs, render, renderAll, renderAll, render, List.append_nil,
      enclose_of_not_mem unit _ name attributes hne (Reference.not_mem_escape rfl s)
        (Reference.not_mem_escape rfl s)]
  | @container height name attributes children ht hne hc ih =>
    have hcontent : renderAll unit (gapOf unit (depth + 1)) children =
        children.flatMap fun child ↦ gapOf unit (depth + 1) ++
          spell (gapOf unit) (depth + 1) child := by
      rw [renderAll_eq_flatMap, List.flatMap_def, List.flatMap_def]
      exact congrArg List.flatten (List.map_congr_left fun child hm ↦ ih child hm (depth + 1))
    have hends : Text.endsIn greater
        (children.flatMap fun child ↦ gapOf unit (depth + 1) ++
          spell (gapOf unit) (depth + 1) child) = true := by
      obtain ⟨more, child, rfl⟩ := (List.eq_nil_or_concat children).resolve_left hne
      obtain ⟨s, hs⟩ := (hc child (by simp)).exists_spell_eq (gapOf unit) (depth + 1)
      have hlast : less :: (s ++ [greater]) = (less :: s) ++ [greater] := rfl
      rw [List.concat_eq_append, List.flatMap_append, List.flatMap_singleton, hs, hlast,
        ← List.append_assoc, ← List.append_assoc]
      exact Text.endsIn_concat greater _
    rw [spell_container hne hc, render, ← gapOf_succ, hcontent,
      enclose_of_endsIn unit _ name attributes hends]

end Unit

theorem countAll_inside {attributes : Attributes}
    (h : ∀ key ∈ attributes.map Prod.fst, ampersand ∉ key) (name rest : Text) :
    Text.countAll Reference.counted ((attributes.tag name).inside ++ rest) =
      attributes.weight + Text.countAll Reference.counted rest := by
  induction attributes with
  | nil =>
    rw [Attributes.tag_inside_nil, List.nil_append, Attributes.weight, List.map_nil, List.foldr_nil,
      Nat.zero_add]
  | cons a attributes ih =>
    obtain ⟨key, value⟩ := a
    have hkey : ampersand ∉ space :: (key ++ [equal, quote]) := by
      simpa [ampersand, space, equal, quote] using h key (List.mem_cons_self ..)
    have hquote : ampersand ∉ [quote] := by decide
    have hrest := ih fun key hm ↦ h key (List.mem_cons_of_mem _ hm)
    rw [Attributes.tag_inside_cons, List.append_assoc,
      Reference.beginWith_counted.countAll_append hkey, List.append_assoc,
      Reference.countAll_counted_escape_append, List.cons_append, ← List.singleton_append,
      Reference.beginWith_counted.countAll_append hquote, hrest, Attributes.weight,
      Attributes.weight, List.map_cons,
      List.foldr_cons, Nat.add_assoc]

section Weight

variable {gap : Nat → Text} {height depth : Nat} {name : Text} {attributes : Attributes}

theorem countAll_openText (h : IsPlainTag name attributes) (rest : Text) :
    Text.countAll Reference.counted ((attributes.tag name).openText ++ rest) =
      attributes.weight + Text.countAll Reference.counted rest := by
  have hname : ampersand ∉ less :: name := by
    simpa [ampersand, less] using h.not_mem (c := ampersand) (List.mem_cons_self ..) rfl
  have hlast : ampersand ∉ [greater] := by decide
  have htext : (attributes.tag name).openText ++ rest =
      (less :: name) ++ ((attributes.tag name).inside ++ ([greater] ++ rest)) := by
    simp [WrittenTag.openText, Attributes.tag]
  rw [htext, Reference.beginWith_counted.countAll_append hname,
    countAll_inside fun key hm ↦ h.not_mem (List.mem_cons_of_mem _ hm) rfl,
    Reference.beginWith_counted.countAll_append hlast]

theorem countAll_emptyText (h : IsPlainTag name attributes) (rest : Text) :
    Text.countAll Reference.counted ((attributes.tag name).emptyText ++ rest) =
      attributes.weight + Text.countAll Reference.counted rest := by
  have hname : ampersand ∉ less :: name := by
    simpa [ampersand, less] using h.not_mem (c := ampersand) (List.mem_cons_self ..) rfl
  have hlast : ampersand ∉ [slash, greater] := by decide
  have htext : (attributes.tag name).emptyText ++ rest =
      (less :: name) ++ ((attributes.tag name).inside ++ ([slash, greater] ++ rest)) := by
    simp [WrittenTag.emptyText, Attributes.tag]
  rw [htext, Reference.beginWith_counted.countAll_append hname,
    countAll_inside fun key hm ↦ h.not_mem (List.mem_cons_of_mem _ hm) rfl,
    Reference.beginWith_counted.countAll_append hlast]

theorem countAll_closeText (h : IsPlainTag name attributes) (rest : Text) :
    Text.countAll Reference.counted (WrittenTag.closeText name [] ++ rest) =
      Text.countAll Reference.counted rest := by
  refine Reference.beginWith_counted.countAll_append ?_ rest
  simpa [WrittenTag.closeText, ampersand, less, slash, greater]
    using h.not_mem (c := ampersand) (List.mem_cons_self ..) rfl

theorem countAll_flatMap {children : List Node} (hg : ∀ depth, ampersand ∉ gap depth)
    (h : ∀ child ∈ children, ∀ rest,
      Text.countAll Reference.counted (child.spell gap depth ++ rest) =
      child.weight + Text.countAll Reference.counted rest) (rest : Text) :
    Text.countAll Reference.counted
      (children.flatMap (fun child ↦ gap depth ++ child.spell gap depth) ++ rest) =
      (children.map weight).foldr (· + ·) 0 + Text.countAll Reference.counted rest := by
  induction children with
  | nil => rw [List.flatMap_nil, List.nil_append, List.map_nil, List.foldr_nil, Nat.zero_add]
  | cons child children ih =>
    rw [List.flatMap_cons, List.append_assoc, List.append_assoc,
      Reference.beginWith_counted.countAll_append (hg depth), h child (List.mem_cons_self ..),
      ih fun child hm ↦ h child (List.mem_cons_of_mem _ hm), List.map_cons, List.foldr_cons,
      Nat.add_assoc]

theorem IsSound.countAll_spell_append {node : Node} (h : node.IsSound height)
    (hg : ∀ depth, ampersand ∉ gap depth) (rest : Text) :
    Text.countAll Reference.counted (node.spell gap depth ++ rest) =
      node.weight + Text.countAll Reference.counted rest := by
  induction h generalizing depth rest with
  | empty ht =>
    rw [spell_empty, countAll_emptyText ht, weight]
    rfl
  | text ht hs =>
    rw [spell_text hs, List.append_assoc, List.append_assoc, countAll_openText ht,
      Reference.countAll_counted_escape_append, countAll_closeText ht, weight,
      List.map_singleton, weight,
      List.foldr_cons, List.foldr_nil, Nat.add_zero, Nat.add_assoc]
  | container ht hne hc ih =>
    rw [spell_container hne hc, List.append_assoc, List.append_assoc, List.append_assoc,
      countAll_openText ht, countAll_flatMap hg fun child hm rest ↦ ih child hm rest,
      Reference.beginWith_counted.countAll_append (hg depth),
      countAll_closeText ht, weight, Nat.add_assoc]

end Weight

end Node
end AnalysisProject.Markup

namespace AnalysisProject.Text.Seamless

open CodeUnit Markup

variable {f : Text → Text} (hf : Seamless f) {name : Text} {attributes : Attributes}
    (h : IsPlainTag name attributes)

include hf h

theorem inside {c : CodeUnit} (hc : c.isSeam = true) (rest : Text) :
    f ((attributes.tag name).inside ++ c :: rest) = ((attributes.mapValues f).tag name).inside ++
      c :: f rest := by
  have hkeys : ∀ key ∈ attributes.map Prod.fst, ∀ c ∈ key, c.isSeam = true :=
    fun key hm ↦ (h.names key (List.mem_cons_of_mem _ hm)).2
  clear h
  induction attributes with
  | nil =>
    have hcut := hf.cut [] c rest hc
    rwa [hf.nil] at hcut
  | cons a attributes ih =>
    obtain ⟨key, value⟩ := a
    have hkey : ∀ d ∈ space :: (key ++ [equal, quote]), d.isSeam = true := by
      intro d hd
      simp only [List.mem_cons, List.mem_append, List.not_mem_nil, or_false] at hd
      rcases hd with rfl | hd | rfl | rfl
      · rfl
      · exact hkeys key (List.mem_cons_self ..) d hd
      · rfl
      · rfl
    have hmap : Attributes.mapValues f ((key, value) :: attributes) = (key, f value) ::
      Attributes.mapValues f attributes := rfl
    have htext (value : Text) (attributes : Attributes) (rest : Text) :
        (Attributes.tag ((key, value) :: attributes) name).inside ++ rest =
          (space :: (key ++ [equal, quote])) ++
            (Reference.escape value ++ quote :: ((attributes.tag name).inside ++ rest)) := by
      simp [Attributes.tag_inside_cons]
    rw [hmap, htext, htext, hf.append_left hkey, hf.cut _ quote _ rfl, hf.escape,
      ih fun key hm ↦ hkeys key (List.mem_cons_of_mem _ hm)]

theorem openText (s rest : Text) :
    f (s ++ ((attributes.tag name).openText ++ rest)) =
      f s ++ (((attributes.mapValues f).tag name).openText ++ f rest) := by
  have htext (attributes : Attributes) (rest : Text) : (attributes.tag name).openText ++ rest =
      less :: (name ++ ((attributes.tag name).inside ++ greater :: rest)) := by
    simp [WrittenTag.openText, Attributes.tag]
  rw [htext, htext, hf.cut s less _ rfl, hf.append_left (h.names name (List.mem_cons_self ..)).2,
    hf.inside h rfl]

theorem emptyText (s rest : Text) :
    f (s ++ ((attributes.tag name).emptyText ++ rest)) =
      f s ++ (((attributes.mapValues f).tag name).emptyText ++ f rest) := by
  have htext (attributes : Attributes) (rest : Text) : (attributes.tag name).emptyText ++ rest =
      less :: (name ++ ((attributes.tag name).inside ++ slash :: ([greater] ++ rest))) := by
    simp [WrittenTag.emptyText, Attributes.tag]
  rw [htext, htext, hf.cut s less _ rfl, hf.append_left (h.names name (List.mem_cons_self ..)).2,
    hf.inside h rfl, hf.append_left (by decide)]

theorem closeText (s rest : Text) :
    f (s ++ (WrittenTag.closeText name [] ++ rest)) =
      f s ++ (WrittenTag.closeText name [] ++ f rest) := by
  refine hf.append_middle s ?_ (List.cons_ne_nil _ _) rest
  intro c hc
  simp only [List.mem_cons, List.mem_append, List.not_mem_nil, or_false, false_or] at hc
  rcases hc with rfl | rfl | hc | rfl
  · rfl
  · rfl
  · exact (h.names name (List.mem_cons_self ..)).2 c hc
  · rfl

omit h

omit hf in
theorem flatMap_spell {gap : Nat → Text} {depth : Nat} {children : List Node}
    (h : ∀ child ∈ children, ∀ s rest, f (s ++ (child.spell gap depth ++ rest)) =
      f s ++ ((child.mapTexts f).spell (fun depth ↦ f (gap depth)) depth ++ f rest)) (rest : Text) :
    f (children.flatMap (fun child ↦ gap depth ++ child.spell gap depth) ++ rest) =
      (children.map (Node.mapTexts f)).flatMap
        (fun child ↦ f (gap depth) ++ child.spell (fun depth ↦ f (gap depth)) depth) ++ f rest := by
  induction children with
  | nil => rfl
  | cons child children ih =>
    rw [List.flatMap_cons, List.append_assoc, List.append_assoc, h child (List.mem_cons_self ..),
      ih fun child hm ↦ h child (List.mem_cons_of_mem _ hm), List.map_cons, List.flatMap_cons,
      List.append_assoc,
      List.append_assoc]

theorem spell (gap : Nat → Text) (depth : Nat) {height : Nat} {node : Node}
    (h : node.IsSound height) (s rest : Text) :
    f (s ++ (node.spell gap depth ++ rest)) =
      f s ++ ((node.mapTexts f).spell (fun depth ↦ f (gap depth)) depth ++ f rest) := by
  -- Text stands on both sides, since a change is only known to go through where it is cut at a
  -- seam.
  induction h generalizing depth s rest with
  | empty ht =>
    rw [Node.spell_empty, hf.emptyText ht, Node.mapTexts, List.map_nil, Node.spell_empty]
  | @text _ name attributes t ht ht' =>
    have hmap : Node.mapTexts f (.element name attributes [.text t]) =
        .element name (attributes.mapValues f) [.text (f t)] := by
      rw [Node.mapTexts, List.map_singleton, Node.mapTexts]
    rw [hmap, Node.spell_text ht', Node.spell_text fun he ↦ ht' (hf.eq_nil t he), List.append_assoc,
      List.append_assoc, hf.openText ht, hf.closeText ht, hf.escape]
    simp
  | @container height name attributes children ht hne hc ih =>
    have hchanged : ∀ child ∈ children.map (Node.mapTexts f), child.IsSound height := by
      intro changed hm
      obtain ⟨child, hchild, rfl⟩ := List.mem_map.mp hm
      exact (hc child hchild).mapTexts hf.eq_nil
    rw [Node.mapTexts, Node.spell_container hne hc,
      Node.spell_container (by simpa using hne) hchanged]
    simp only [List.append_assoc]
    rw [hf.openText ht, flatMap_spell fun child hm s rest ↦ ih child hm _ s rest, hf.closeText ht]

theorem weight_mapTexts (node : Node) : (node.mapTexts f).weight = node.weight := by
  induction node using Node.mapTexts.induct with
  | case1 s => rw [Node.mapTexts, Node.weight, Node.weight, hf.weight]
  | case2 name attributes children ih =>
    have hattributes : Attributes.weight (attributes.mapValues f) = attributes.weight := by
      simp only [Attributes.weight, Attributes.mapValues, List.map_map,
        Function.comp_def, hf.weight]
    have hchildren : ((children.map (Node.mapTexts f)).map Node.weight).foldr (· + ·) 0 =
        (children.map Node.weight).foldr (· + ·) 0 := by
      rw [List.map_map]
      exact congrArg (List.foldr (· + ·) 0) (List.map_congr_left ih)
    rw [Node.mapTexts, Node.weight, Node.weight, hattributes, hchildren]

end AnalysisProject.Text.Seamless
