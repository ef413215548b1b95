import AnalysisProject.Proofs.Markup.Acceptance
import AnalysisProject.Proofs.Markup.Construction
import AnalysisProject.Proofs.Markup.Layout

namespace AnalysisProject.Markup

open CodeUnit

namespace Node

def ofGap (s : Text) : List Node := if s.isEmpty then [] else [text s]

/-- The node as it is read. -/
def spread (gap : Nat → Text) (depth : Nat) : Node → Node
  | text s => text s
  | element name attributes children =>
    element name attributes
      (if children.any isElement then
        children.flatMap (fun child ↦ ofGap (gap (depth + 1)) ++ [spread gap (depth + 1) child]) ++
          ofGap (gap depth)
      else children)

theorem spread_container {gap : Nat → Text} {depth height : Nat} {name : Text}
    {attributes : Attributes} {children : List Node} (hne : children ≠ [])
    (h : ∀ child ∈ children, child.IsSound height) :
    spread gap depth (element name attributes children) = element name attributes
      (children.flatMap (fun child ↦ ofGap (gap (depth + 1)) ++ [child.spread gap (depth + 1)])
        ++ ofGap (gap depth)) := by
  obtain ⟨child, more, rfl⟩ := List.exists_cons_of_ne_nil hne
  have hany : (child :: more).any isElement = true := by
    rw [List.any_cons, (h child (List.mem_cons_self ..)).isElement, Bool.true_or]
  rw [spread, if_pos hany]

theorem filter_spread {q : Node → Bool} (ht : ∀ s, q (text s) = false) {gap : Nat → Text}
    {depth : Nat} {children : List Node}
    (hc : ∀ child ∈ children, q (child.spread gap (depth + 1)) = true) :
    (children.flatMap (fun child ↦ ofGap (gap (depth + 1)) ++ [child.spread gap (depth + 1)]) ++
      ofGap (gap depth)).filter q = children.map (spread gap (depth + 1)) := by
  have hgap (s : Text) : (ofGap s).filter q = [] := by
    rw [ofGap]
    split
    · rfl
    · rw [List.filter_cons, ht, if_neg Bool.false_ne_true, List.filter_nil]
  rw [List.filter_append, hgap, List.append_nil]
  induction children with
  | nil => rfl
  | cons child children ih =>
    obtain ⟨hchild, hc⟩ := List.forall_mem_cons.mp hc
    have hsingle : [child.spread gap (depth + 1)].filter q = [child.spread gap (depth + 1)] :=
      List.filter_cons_of_pos hchild
    rw [List.flatMap_cons, List.filter_append, List.filter_append, hgap, List.nil_append, hsingle,
      ih hc, List.map_cons, List.singleton_append]

end Node

namespace Check

variable {gap : Nat → Text} {height : Nat} {node : Node}

theorem spell_cases (h : node.IsSound height)
    (hg : ∀ depth, ∀ c ∈ gap depth, c ≠ less ∧ c ≠ ampersand) (depth : Nat) :
    ∃ t : WrittenTag, t.IsSound ∧ (node.spell gap depth = t.emptyText ∨
      ∃ s, Neutral s ∧ node.spell gap depth = t.openText ++
        (s ++ WrittenTag.closeText t.name [])) := by
  induction h generalizing depth with
  | @empty _ name attributes ht => exact ⟨attributes.tag name, ht.isSound, .inl Node.spell_empty⟩
  | @text _ name attributes s ht hs =>
    exact ⟨attributes.tag name, ht.isSound, .inr ⟨_, neutral_escape s, Node.spell_text hs⟩⟩
  | @container _ name attributes children ht hne hc ih =>
    refine ⟨attributes.tag name, ht.isSound, .inr
      ⟨children.flatMap (fun child ↦ gap (depth + 1) ++ child.spell gap (depth + 1)) ++
        gap depth, ?_, ?_⟩⟩
    · refine (neutral_flatMap fun child hm ↦ (neutral_gap (hg _)).append ?_).append
        (neutral_gap (hg depth))
      obtain ⟨t, hsound, hspell | ⟨s, hs, hspell⟩⟩ := ih child hm (depth + 1)
      · exact hspell ▸ neutral_empty hsound
      · exact hspell ▸ hs.element hsound fun _ hc ↦ absurd hc List.not_mem_nil
    · rw [Node.spell_container hne hc, List.append_assoc]
      rfl

theorem run_spell (h : node.IsSound height)
    (hg : ∀ depth, ∀ c ∈ gap depth, c ≠ less ∧ c ≠ ampersand) (depth : Nat) {last : Text}
    (hl : last.IsSpace) (isStart : Bool) :
    ∃ rest p, skipProlog isStart (node.spell gap depth ++ last) = .ok (some rest) ∧
      run {} rest = .ok p ∧
      p.finish = .ok () := by
  obtain ⟨t, ht, hspell | ⟨s, hs, hspell⟩⟩ := spell_cases h hg depth
  · have htext :
        t.emptyText ++ last = less :: (t.name ++ (t.inside ++ ([slash, greater] ++ last))) := by
      simp [WrittenTag.emptyText]
    refine ⟨t.name ++ (t.inside ++ ([slash, greater] ++ last)), {}, ?_, ?_, rfl⟩
    · rw [hspell, htext, skipProlog_name ht.name]
    · rw [run_empty ht, resume, skipContent_isSpace hl]
  · have htext : t.openText ++ (s ++ WrittenTag.closeText t.name []) ++ last =
        less :: (t.name ++ (t.inside ++
          ([greater] ++ (s ++ (WrittenTag.closeText t.name [] ++ last))))) := by
      simp [WrittenTag.openText]
    refine ⟨t.name ++ (t.inside ++ ([greater] ++ (s ++ (WrittenTag.closeText t.name [] ++ last)))),
      ⟨[], true⟩, ?_, ?_, rfl⟩
    · rw [hspell, htext, skipProlog_name ht.name]
    · exact run_root ht hs (fun _ hc ↦ absurd hc List.not_mem_nil) hl

end Check

namespace Reading

theorem Leads.metered {r r' : Reading} {s : Text} (h : r.Leads s r')
    (hr : r.expansion.count ≤ Expansion.maxCount) :
    Metered .excess r'.expansion.count (r.run s) r' := by
  obtain ⟨hok, herror⟩ := h.2 hr []
  have hnil : r'.run [] = .ok r' := by rw [run]
  rw [List.append_nil] at hok herror
  rw [hnil] at hok
  exact ⟨hok, herror⟩

theorem standFor_tag (attributes : Attributes) (name : Text) :
    StandFor (attributes.tag name).assignments attributes attributes.weight := by
  induction attributes with
  | nil => exact .nil
  | cons a attributes ih => exact .cons (Expansion.stands_escape a.2) ih

variable {gap : Nat → Text} {height : Nat}

theorem push_beforeTag {f : Frame} (h : (f.name == Frame.document.name) = false) (s : Text)
    (node : Node) :
    (f.beforeTag s).push node =
      { f with children := (Node.ofGap s ++ [node]).reverse ++ f.children } := by
  rw [Frame.beforeTag, h, if_neg Bool.false_ne_true, Frame.addText, Node.ofGap]
  cases s.isEmpty <;> rfl

theorem close_addText {f : Frame} (h : f.name.IsPlainName) (s : Text) :
    (f.addText s).close = .element f.name f.attributes (f.children.reverse ++ Node.ofGap s) := by
  rw [Frame.addText, Node.ofGap]
  cases s.isEmpty with
  | true => rw [if_pos rfl, if_pos rfl, List.append_nil, Frame.close_eq h]
  | false =>
    have hpush : (f.push (.text s)).name.IsPlainName := h
    rw [if_neg Bool.false_ne_true, if_neg Bool.false_ne_true, Frame.close_eq hpush]
    simp [Frame.push]

theorem leads_flatMap (hg : ∀ depth, ∀ c ∈ gap depth, c ≠ less ∧ c ≠ ampersand)
    {children : List Node} (depth : Nat) (ancestors : List Frame)
    (h : ∀ child ∈ children, ∀ (f : Frame) (s : Text) (count : Nat), ampersand ∉ s →
      (inside f ancestors s count).Leads (child.spell gap depth)
        (inside ((f.beforeTag s).push (child.spread gap depth)) ancestors []
          (count + child.weight)))
    (f : Frame) (hf : (f.name == Frame.document.name) = false) (count : Nat) :
    (inside f ancestors [] count).Leads
      (children.flatMap fun child ↦ gap depth ++ child.spell gap depth)
      (inside
        { f with
          children := (children.flatMap fun child ↦ Node.ofGap (gap depth) ++
            [child.spread gap depth]).reverse ++ f.children }
        ancestors [] (count + (children.map Node.weight).foldr (· + ·) 0)) := by
  induction children generalizing f count with
  | nil => exact .refl _
  | cons child children ih =>
    have htext := leads_text (inside f ancestors [] count) (s := gap depth) fun hm ↦
      (hg depth _ hm).1 rfl
    have hchild := h child (List.mem_cons_self ..) f (gap depth) count fun hm ↦
      (hg depth _ hm).2 rfl
    rw [push_beforeTag hf] at hchild
    have hmore := ih (fun child hm ↦ h child (List.mem_cons_of_mem _ hm))
      { f with
        children := (Node.ofGap (gap depth) ++ [child.spread gap depth]).reverse ++ f.children } hf
      (count + child.weight)
    have hall := (htext.trans hchild).trans hmore
    simpa only [List.flatMap_cons, List.map_cons, List.foldr_cons, List.reverse_append,
      List.append_assoc, Nat.add_assoc] using hall

/-- Reading a written node puts it in. -/
theorem leads_spell (hg : ∀ depth, ∀ c ∈ gap depth, c ≠ less ∧ c ≠ ampersand) {node : Node}
    (h : node.IsSound height) (depth : Nat) (f : Frame) (ancestors : List Frame) {s : Text}
    (hs : ampersand ∉ s) (count : Nat) (hd : ancestors.length + height ≤ Cursor.maxDepth) :
    (inside f ancestors s count).Leads (node.spell gap depth)
      (inside ((f.beforeTag s).push (node.spread gap depth)) ancestors []
        (count + node.weight)) := by
  -- `s` is the gap before the node. It is put in when the tag is read.
  induction h generalizing depth f ancestors s count with
  | @empty _ name attributes ht =>
    have h := leads_empty ht.isSound f ancestors count hs (standFor_tag attributes name)
    rw [Node.spell_empty, Node.spread, Node.weight]
    exact h
  | @text _ name attributes t ht ht' =>
    have hopen :=
      leads_open ht.isSound f ancestors count hs (standFor_tag attributes name) (by omega)
    have htext := leads_text
      (inside ⟨name, attributes, []⟩ (f.beforeTag s :: ancestors) [] (count + attributes.weight))
        (s := Reference.escape t) (Reference.not_mem_escape rfl t)
    have hclose := leads_close ⟨name, attributes, []⟩ ancestors (count + attributes.weight)
      (f.beforeTag s) (Expansion.stands_escape t) (ht.not_mem (List.mem_cons_self ..) rfl)
        (show greater ∉ ([] : Text) from List.not_mem_nil)
    have hnode : (Frame.addText t ⟨name, attributes, []⟩).close =
        .element name attributes [.text t] := by
      rw [close_addText ht.name_isPlainName, Node.ofGap, if_neg (mt List.isEmpty_iff.mp ht')]
      rfl
    have hspread : (Node.element name attributes [.text t]).spread gap depth =
        .element name attributes [.text t] := by
      rw [Node.spread]
      rfl
    have hweight : (Node.element name attributes [.text t]).weight = attributes.weight +
        Reference.weight t := by
      rw [Node.weight, List.map_singleton, Node.weight, List.foldr_cons, List.foldr_nil,
        Nat.add_zero]
    rw [hnode] at hclose
    rw [Node.spell_text ht', hspread, hweight, ← Nat.add_assoc]
    exact hopen.trans (htext.trans hclose)
  | @container height name attributes children ht hne hc ih =>
    let items :=
      children.flatMap fun child ↦ Node.ofGap (gap (depth + 1)) ++ [child.spread gap (depth + 1)]
    let full : Frame := ⟨name, attributes, items.reverse ++ []⟩
    let total := count + attributes.weight + (children.map Node.weight).foldr (· + ·) 0
    have hdocument : (name == Frame.document.name) = false := by
      rw [beq_eq_false_iff_ne]
      rintro rfl
      exact ht.not_mem (c := exclamation) (List.mem_cons_self ..) rfl (List.mem_cons_self ..)
    have hopen :=
      leads_open ht.isSound f ancestors count hs (standFor_tag attributes name) (by omega)
    have hchildren := leads_flatMap hg (depth + 1) (f.beforeTag s :: ancestors)
      (fun child hm f s count hs ↦
        ih child hm (depth + 1) f _ hs count (by rw [List.length_cons]; omega))
      ⟨name, attributes, []⟩ hdocument (count + attributes.weight)
    have htext := leads_text (inside full (f.beforeTag s :: ancestors) [] total) (s := gap depth)
      fun hm ↦ (hg depth _ hm).1 rfl
    have hclose := leads_close full ancestors total (f.beforeTag s)
      (Expansion.stands_self (s := gap depth) fun hm ↦ (hg depth _ hm).2 rfl)
      (ht.not_mem (List.mem_cons_self ..) rfl) (show greater ∉ ([] : Text) from List.not_mem_nil)
    have hnode : (full.addText (gap depth)).close =
        (Node.element name attributes children).spread gap depth := by
      have hchildren : full.children.reverse = items :=
        (congrArg List.reverse (List.append_nil _)).trans (List.reverse_reverse items)
      rw [close_addText ht.name_isPlainName, Node.spread_container hne hc, hchildren]
    rw [hnode] at hclose
    rw [Node.spell_container hne hc, Node.weight, ← Nat.add_assoc]
    exact hopen.trans (hchildren.trans (htext.trans hclose))

end Reading
end AnalysisProject.Markup
