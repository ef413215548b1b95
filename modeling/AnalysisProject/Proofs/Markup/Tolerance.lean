import AnalysisProject.Proofs.Markup.Recovery
import AnalysisProject.Proofs.Markup.Rest
import AnalysisProject.Proofs.Markup.Variant

namespace AnalysisProject.Markup

open CodeUnit

namespace Check

theorem skipExclamation_comment {c : Text} (hc : ¬ ("-->" : Text) <:+: c) (rest : Text) :
    skipExclamation ("--" ++ (c ++ ("-->" ++ rest))) = rest := by
  have hs : Text.startsWith "--" ("--" ++ (c ++ ("-->" ++ rest))) = true := rfl
  have hl : 4 < ("--" ++ (c ++ ("-->" ++ rest)) : Text).length := by
    have h₁ : ("--" : Text).length = 2 := rfl
    have h₂ : ("-->" : Text).length = 3 := rfl
    rw [List.length_append, List.length_append, List.length_append, h₁, h₂]
    omega
  have ha : Text.afterOrEnd "-->" (c ++ ("-->" ++ rest)) = rest :=
    Text.afterOrEnd_append (show greater ∉ ("--" : Text) by decide) hc rest
  rw [skipExclamation, hs, Bool.true_and, if_pos (decide_eq_true hl)]
  exact ha

theorem skipExclamation_section {s : Text} (hs : ¬ ("]]>" : Text) <:+: s) (rest : Text) :
    skipExclamation ("[CDATA[" ++ (s ++ ("]]>" ++ rest))) = rest := by
  have h₁ : Text.startsWith "--" ("[CDATA[" ++ (s ++ ("]]>" ++ rest))) = false := rfl
  have h₂ : Text.startsWith "DOCTYPE" ("[CDATA[" ++ (s ++ ("]]>" ++ rest))) = false := rfl
  have h₃ : Text.startsWith "[CDATA[" ("[CDATA[" ++ (s ++ ("]]>" ++ rest))) = true := rfl
  have hl : 8 < ("[CDATA[" ++ (s ++ ("]]>" ++ rest)) : Text).length := by
    have h₁ : ("[CDATA[" : Text).length = 7 := rfl
    have h₂ : ("]]>" : Text).length = 3 := rfl
    rw [List.length_append, List.length_append, List.length_append, h₁, h₂]
    omega
  have ha : Text.afterOrEnd "]]>" (s ++ ("]]>" ++ rest)) = rest :=
    Text.afterOrEnd_append (show greater ∉ ("]]" : Text) by decide) hs rest
  rw [skipExclamation, h₁, h₂, h₃, Bool.false_and, Bool.false_and, if_neg Bool.false_ne_true,
    if_neg Bool.false_ne_true, Bool.true_and, if_pos (decide_eq_true hl)]
  exact ha

theorem comment_append (c rest : Text) :
    comment c ++ rest = less :: exclamation :: ("--" ++ (c ++ ("-->" ++ rest))) := by
  rw [comment, List.append_assoc, List.append_assoc]
  rfl

theorem characterSection_append (s rest : Text) :
    characterSection s ++ rest = less :: exclamation :: ("[CDATA[" ++ (s ++ ("]]>" ++ rest))) := by
  rw [characterSection, List.append_assoc, List.append_assoc]
  rfl

theorem skipContent_comment {c : Text} (hc : ¬ ("-->" : Text) <:+: c) (isAfterRoot : Bool)
    (rest : Text) :
    skipContent isAfterRoot (comment c ++ rest) = skipContent isAfterRoot rest := by
  rw [comment_append, skipContent_exclamation, skipExclamation_comment hc]

theorem skipContent_gap {gap : Text} (h : Gap gap) (isAfterRoot : Bool) (rest : Text) :
    skipContent isAfterRoot (gap ++ rest) = skipContent isAfterRoot rest := by
  induction h with
  | nil => rfl
  | @white s more hs _ ih =>
    rw [List.append_assoc, ← ih]
    have hspace := hs.isSpace
    clear hs
    induction s with
    | nil => rfl
    | cons c s ih =>
      rw [List.cons_append, skipContent_xmlSpace (hspace c (List.mem_cons_self ..))]
      exact ih fun d hd ↦ hspace d (List.mem_cons_of_mem c hd)
  | comment hc _ ih => rw [List.append_assoc, skipContent_comment hc, ih]

theorem skipProlog_gap {gap : Text} (h : Gap gap) (isStart : Bool) (rest : Text) :
    ∃ isStart', skipProlog isStart (gap ++ rest) = skipProlog isStart' rest := by
  induction h generalizing isStart with
  | nil => exact ⟨isStart, rfl⟩
  | @white s more hs _ ih =>
    have hspace := hs.isSpace
    cases s with
    | nil => exact ih isStart
    | cons c s =>
      have hc := hspace c (List.mem_cons_self ..)
      obtain ⟨isStart', hmore⟩ := ih false
      refine ⟨isStart', ?_⟩
      rw [List.append_assoc, List.cons_append, skipProlog_xmlSpace hc, ← hmore]
      exact skipProlog_isSpace (fun d hd ↦ hspace d (List.mem_cons_of_mem c hd)) _
  | comment hc _ ih =>
    obtain ⟨isStart', hmore⟩ := ih false
    refine ⟨isStart', ?_⟩
    rw [List.append_assoc, comment_append, skipProlog_exclamation, skipExclamation_comment hc,
      hmore]

theorem neutral_gap_comments {gap : Text} (h : Gap gap) : Neutral gap :=
  neutral_of_skipContent fun rest ↦ skipContent_gap h false rest

theorem Escaped.neutral {raw s : Text} {n : Nat} (h : Escaped raw s n) : Neutral raw := by
  induction h with
  | nil => exact neutral_nil
  | plain ha hl _ ih => exact (neutral_unit hl ha).append ih
  | reference hw _ ih => exact (neutral_written hw).append ih

theorem Content.neutral {raw s : Text} {n : Nat} (h : Content raw s n) : Neutral raw := by
  induction h with
  | nil => exact neutral_nil
  | run hraw _ ih => exact (Escaped.neutral hraw).append ih
  | characterSection hs _ ih =>
    refine Neutral.append (neutral_of_skipContent fun rest ↦ ?_) ih
    rw [characterSection_append, skipContent_exclamation, skipExclamation_section hs]
  | comment hc _ ih => exact (neutral_of_skipContent (skipContent_comment hc false)).append ih

theorem Neutral.wrap {s rest : Text} (hs : Neutral s) (hrest : Neutral rest) {t : WrittenTag}
    (ht : t.IsSound) {name space : Text} (hname : t.name = name) (hspace : space.IsSpace) :
    Neutral (t.openText ++ (s ++ (WrittenTag.closeText name space ++ rest))) := by
  have h := (hs.element ht hspace).append hrest
  rwa [hname, List.append_assoc, List.append_assoc] at h

theorem Spelled.neutral {nodes : List Node} {s : Text} {n height : Nat} (h : Spelled nodes s n)
    (hs : ∀ node ∈ nodes, node.IsSound height) : Neutral s := by
  induction h generalizing height with
  | nil hgap => exact neutral_gap_comments hgap
  | empty hgap ht _ ih =>
    obtain ⟨hsound, hs⟩ := List.forall_mem_cons.mp hs
    exact (neutral_gap_comments hgap).append
      ((neutral_empty (ht.isSound hsound.isPlainTag)).append (ih hs))
  | leaf hgap ht hcontent hspace _ ih =>
    obtain ⟨hsound, hs⟩ := List.forall_mem_cons.mp hs
    have htag := ht.isSound hsound.isPlainTag
    exact (neutral_gap_comments hgap).append
      ((Content.neutral hcontent).wrap (ih hs) htag ht.name hspace.isSpace)
  | container hgap ht hne hinner hspace _ ihinner ih =>
    obtain ⟨hsound, hs⟩ := List.forall_mem_cons.mp hs
    obtain ⟨below, -, hchildren⟩ := hsound.exists_below hne hinner.isElement
    have htag := ht.isSound hsound.isPlainTag
    exact (neutral_gap_comments hgap).append
      ((ihinner hchildren).wrap (ih hs) htag ht.name hspace.isSpace)

theorem skipContent_lastGap {gap : Text} (h : Gap gap) (isAfterRoot : Bool) :
    skipContent isAfterRoot gap = .ok none := by
  have hgap := skipContent_gap h isAfterRoot []
  rwa [List.append_nil, skipContent] at hgap

section Root

variable {t : WrittenTag} (ht : t.IsSound) {gap last : Text} (hgap : Gap gap) (hlast : Gap last)
    (isStart : Bool)

include ht hgap hlast

theorem run_emptyRoot :
    ∃ rest p, skipProlog isStart (gap ++ (t.emptyText ++ last)) = .ok (some rest) ∧
    run {} rest = .ok p ∧ p.finish = .ok () := by
  obtain ⟨isStart', hprolog⟩ := skipProlog_gap hgap isStart (t.emptyText ++ last)
  have htext :
      t.emptyText ++ last = less :: (t.name ++ (t.inside ++ ([slash, greater] ++ last))) := by
    simp [WrittenTag.emptyText]
  refine ⟨t.name ++ (t.inside ++ ([slash, greater] ++ last)), {}, ?_, ?_, rfl⟩
  · rw [hprolog, htext, skipProlog_name ht.name]
  · rw [run_empty ht, resume, skipContent_lastGap hlast]

theorem run_openRoot {name s space : Text} (hname : t.name = name) (hs : Neutral s)
    (hspace : space.IsSpace) :
    ∃ rest p,
      skipProlog isStart (gap ++ (t.openText ++ (s ++ (WrittenTag.closeText name space ++ last)))) =
      .ok (some rest) ∧ run {} rest = .ok p ∧ p.finish = .ok () := by
  obtain ⟨isStart', hprolog⟩ := skipProlog_gap hgap isStart
    (t.openText ++ (s ++ (WrittenTag.closeText name space ++ last)))
  have htext : t.openText ++ (s ++ (WrittenTag.closeText name space ++ last)) =
      less :: (t.name ++ (t.inside ++
        ([greater] ++ (s ++ (WrittenTag.closeText t.name space ++ last))))) := by
    simp [WrittenTag.openText, hname]
  refine ⟨t.name ++ (t.inside ++ ([greater] ++ (s ++ (WrittenTag.closeText t.name space ++ last)))),
    ⟨[], true⟩, ?_, ?_, rfl⟩
  · rw [hprolog, htext, skipProlog_name ht.name]
  · exact run_root_of_skipContent ht hs hspace (skipContent_lastGap hlast true)

end Root

/-- A document with one root is accepted, however it is spelled. -/
theorem run_spelled {root : Node} {s : Text} {n height : Nat} (h : Spelled [root] s n)
    (hs : root.IsSound height) (isStart : Bool) :
    ∃ rest p, skipProlog isStart s = .ok (some rest) ∧ run {} rest = .ok p ∧ p.finish = .ok () := by
  cases h with
  | empty hgap ht hrest =>
    cases hrest with
    | nil hlast => exact run_emptyRoot (ht.isSound hs.isPlainTag) hgap hlast isStart
  | leaf hgap ht hcontent hspace hrest =>
    cases hrest with
    | nil hlast =>
      exact run_openRoot (ht.isSound hs.isPlainTag) hgap hlast isStart ht.name
        (Content.neutral hcontent) hspace.isSpace
  | container hgap ht hne hinner hspace hrest =>
    obtain ⟨below, -, hchildren⟩ := hs.exists_below hne hinner.isElement
    cases hrest with
    | nil hlast =>
      exact run_openRoot (ht.isSound hs.isPlainTag) hgap hlast isStart ht.name
        (Spelled.neutral hinner hchildren) hspace.isSpace

end Check

/-- The same elements with the same contents. Texts may stand anywhere between the elements, and the
text of an element that holds no elements may be divided. -/
inductive Shows : List Node → List Node → Prop
  | nil : Shows [] []
  | text {s : Text} {nodes more : List Node} : Shows nodes more → Shows nodes (.text s :: more)
  | leaf {name s : Text} {attributes : Attributes} {texts nodes more : List Node} :
      (∀ child ∈ texts, child.isElement = false) →
      (Node.element name attributes texts).content = s → Shows nodes more →
      Shows (.element name attributes (if s.isEmpty then [] else [.text s]) :: nodes)
        (.element name attributes texts :: more)
  | container {name : Text} {attributes : Attributes} {children inner nodes more : List Node} :
      children ≠ [] → Shows children inner → Shows nodes more →
      Shows (.element name attributes children :: nodes) (.element name attributes inner :: more)

theorem Shows.texts_append {texts nodes more : List Node}
    (ht : ∀ child ∈ texts, child.isElement = false)
    (h : Shows nodes more) : Shows nodes (texts ++ more) := by
  induction texts with
  | nil => exact h
  | cons child texts ih =>
    obtain ⟨hc, htexts⟩ := List.forall_mem_cons.mp ht
    cases child with
    | text s => exact .text (ih htexts)
    | element _ _ _ => cases hc

theorem Shows.append_texts {texts nodes more : List Node}
    (ht : ∀ child ∈ texts, child.isElement = false)
    (h : Shows nodes more) : Shows nodes (more ++ texts) := by
  induction h with
  | nil =>
    have hnil := Shows.nil.texts_append ht
    rwa [List.append_nil] at hnil
  | text _ ih => exact .text ih
  | leaf hl hc _ ih => exact .leaf hl hc ih
  | container hne hi _ _ ih => exact .container hne hi ih

namespace Node

theorem isElement_ofGap (s : Text) : ∀ child ∈ ofGap s, child.isElement = false := by
  intro child hm
  rw [ofGap] at hm
  split at hm
  · cases hm
  · rw [List.mem_singleton.mp hm]
    rfl

theorem content_append (name : Text) (attributes : Attributes) (children more : List Node) :
    (element name attributes (children ++ more)).content =
      (element name attributes children).content ++ (element name attributes more).content :=
  List.flatMap_append

theorem content_ofGap (name : Text) (attributes : Attributes) (s : Text) :
    (element name attributes (ofGap s)).content = s := by
  rw [ofGap]
  split
  · next h => exact (List.isEmpty_iff.mp h).symm
  · exact List.append_nil s

end Node

namespace Frame

theorem addText_eq (f : Frame) (s : Text) :
    f.addText s = { f with children := (Node.ofGap s).reverse ++ f.children } := by
  rw [addText, Node.ofGap]
  split <;> rfl

theorem exists_beforeTag_eq (f : Frame) (s : Text) :
    ∃ texts : List Node, (∀ child ∈ texts, child.isElement = false) ∧
      f.beforeTag s = { f with children := texts.reverse ++ f.children } := by
  rw [beforeTag]
  split
  · exact ⟨[], fun _ hm ↦ absurd hm List.not_mem_nil, rfl⟩
  · exact ⟨Node.ofGap s, Node.isElement_ofGap s, f.addText_eq s⟩

end Frame

namespace Reading

theorem leads_comment (r : Reading) {c : Text} (hc : ¬ ("-->" : Text) <:+: c) :
    r.Leads (comment c) r := by
  have htext : comment c = less :: ("!--" ++ (c ++ "-->")) := rfl
  rw [htext]
  refine leads_of_takeMarkup (Nat.le_refl _) fun hr rest ↦ ?_
  have ha : Text.after? "-->" (c ++ ("-->" ++ rest)) = some rest :=
    Text.after?_append (show greater ∉ ("--" : Text) by decide) hc rest
  have htake : r.takeMarkup ("!--" ++ (c ++ ("-->" ++ rest))) = .ok (r, rest) := by
    have h₁ : Text.startsWith "/" ("!--" ++ (c ++ ("-->" ++ rest))) = false := rfl
    have h₂ : Text.startsWith "?" ("!--" ++ (c ++ ("-->" ++ rest))) = false := rfl
    have h₃ : Text.startsWith "!--" ("!--" ++ (c ++ ("-->" ++ rest))) = true := rfl
    have hd : List.drop 3 ("!--" ++ (c ++ ("-->" ++ rest)) : Text) = c ++ ("-->" ++ rest) := rfl
    rw [takeMarkup, h₁, h₂, if_neg Bool.false_ne_true, if_neg Bool.false_ne_true, if_pos h₃, hd, ha]
  rw [List.append_assoc, List.append_assoc, htake]
  exact .ok _ hr

theorem section?_append {s : Text} (hs : ¬ ("]]>" : Text) <:+: s) (rest : Text) : section?
      ("[CDATA[" ++ (s ++ ("]]>" ++ rest))) = some (s, rest) := by
  have hsplit : Text.splitFirst? "]]>" (s ++ ("]]>" ++ rest)) = some (s, rest) :=
    Text.splitFirst?_append (show greater ∉ ("]]" : Text) by decide) hs rest
  have hopen : Text.splitFirst? "]]>" ("[CDATA[" ++ (s ++ ("]]>" ++ rest))) =
      some ("[CDATA[" ++ s, rest) := by
    refine (Text.splitFirst?_append_left (by decide) _ _).trans ?_
    exact congrArg (Option.map _) hsplit
  have hl : sectionStart ≤ ("[CDATA[" ++ s : Text).length := by
    rw [List.length_append]
    exact Nat.le_add_right 7 _
  rw [section?, hopen, Option.map_some]
  exact congrArg (fun inside ↦ some (inside, rest)) (if_pos hl)

theorem leads_characterSection (f : Frame) (ancestors : List Frame) (count : Nat)
    {raw t s : Text} {n : Nat} (h : Expansion.Stands raw t n) (hs : ¬ ("]]>" : Text) <:+: s) :
    (inside f ancestors raw count).Leads (characterSection s)
      (inside ((f.addText t).push (.text s)) ancestors [] (count + n)) := by
  have htext : characterSection s = less :: (exclamation :: ("[CDATA[" ++ (s ++ "]]>"))) := rfl
  rw [htext]
  refine leads_of_takeMarkup (Nat.le_add_right _ _) fun hx rest ↦ ?_
  have htake (r : Reading) : r.takeMarkup (exclamation :: ("[CDATA[" ++ (s ++ ("]]>" ++ rest)))) =
      (r.addSection s).map fun r ↦ (r, rest) := by
    have h₁ : Text.startsWith "/" (exclamation :: ("[CDATA[" ++ (s ++ ("]]>" ++ rest)))) = false :=
      rfl
    have h₂ : Text.startsWith "?" (exclamation :: ("[CDATA[" ++ (s ++ ("]]>" ++ rest)))) = false :=
      rfl
    have h₃ : Text.startsWith "!--" (exclamation :: ("[CDATA[" ++ (s ++ ("]]>" ++ rest)))) =
      false := rfl
    have h₄ : Text.startsWith "!D" (exclamation :: ("[CDATA[" ++ (s ++ ("]]>" ++ rest)))) = false :=
      rfl
    have h₅ : Text.startsWith "![" (exclamation :: ("[CDATA[" ++ (s ++ ("]]>" ++ rest)))) = true :=
      rfl
    rw [takeMarkup, h₁, h₂, h₃, h₄, if_neg Bool.false_ne_true, if_neg Bool.false_ne_true,
      if_neg Bool.false_ne_true, if_neg Bool.false_ne_true, if_pos h₅, List.drop_succ_cons,
      List.drop_zero, section?_append hs]
  rw [List.cons_append, List.append_assoc, List.append_assoc, htake]
  refine Metered.map ?_ fun r ↦ (r, rest)
  rw [addSection]
  refine (flush_metered f ancestors count h hx).bind (Nat.le_refl _) fun hm ↦ ?_
  exact .ok _ hm

theorem leads_gap (r : Reading) {gap : Text} (h : Gap gap) :
    ∃ white, ampersand ∉ white ∧ r.Leads gap { r with pending := r.pending ++ white } := by
  induction h generalizing r with
  | nil => exact ⟨[], List.not_mem_nil, by rw [List.append_nil]; exact .refl r⟩
  | @white s _ hs _ ih =>
    obtain ⟨white, hw, hleads⟩ := ih { r with pending := r.pending ++ s }
    refine ⟨s ++ white, List.not_mem_append (hs.not_mem (by decide)) hw, ?_⟩
    rw [← List.append_assoc]
    exact (leads_text r (hs.not_mem (by decide))).trans hleads
  | comment hc _ ih =>
    obtain ⟨white, hw, hleads⟩ := ih r
    exact ⟨white, hw, (leads_comment r hc).trans hleads⟩

/-- A text in pieces is read as texts one after the other, the last of which is still pending. -/
theorem leads_content {content s : Text} {n : Nat} (h : Content content s n) (f : Frame)
    (ancestors : List Frame) (count : Nat) {raw t : Text} {k : Nat} (hraw : Escaped raw t k) :
    ∃ texts raw' t' k' count', (∀ child ∈ texts, child.isElement = false) ∧ Escaped raw' t' k' ∧
      (∀ name attributes, (Node.element name attributes texts).content ++ t' = t ++ s) ∧
        count' + k' = count + k + n ∧
      (inside f ancestors raw count).Leads content
        (inside { f with children := texts.reverse ++ f.children } ancestors raw' count') := by
  induction h generalizing f count raw t k with
  | nil =>
    exact ⟨[], raw, t, k, count, fun _ hm ↦ absurd hm List.not_mem_nil, hraw, fun _ _ ↦
      (List.append_nil t).symm, rfl, .refl _⟩
  | @run piece s _ _ m n hpiece _ ih =>
    obtain ⟨texts, raw', t', k', count', ht, hraw', hcontent, hcount, hleads⟩ :=
      ih f count (hraw.append hpiece)
    refine ⟨texts, raw', t', k', count', ht, hraw', ?_, ?_, ?_⟩
    · intro name attributes
      rw [hcontent, List.append_assoc]
    · omega
    · exact (leads_text (inside f ancestors raw count) hpiece.less_not_mem).trans hleads
  | @characterSection s _ _ n hs _ ih =>
    obtain ⟨texts, raw', t', k', count', ht, hraw', hcontent, hcount, hleads⟩ :=
      ih ((f.addText t).push (.text s)) (count + k) .nil
    refine ⟨Node.ofGap t ++ (.text s :: texts), raw', t', k', count', ?_, hraw', ?_, ?_, ?_⟩
    · intro child hm
      rcases List.mem_append.mp hm with hm | hm
      · exact Node.isElement_ofGap t child hm
      · rcases List.mem_cons.mp hm with rfl | hm
        · rfl
        · exact ht child hm
    · intro name attributes
      have hs : (Node.element name attributes (.text s :: texts)).content =
          s ++ (Node.element name attributes texts).content := rfl
      rw [Node.content_append, Node.content_ofGap, hs, List.append_assoc,
        List.append_assoc, hcontent, List.nil_append]
    · omega
    · have hframe : { (f.addText t).push (.text s) with
          children := texts.reverse ++ ((f.addText t).push (.text s)).children } =
            { f with children := (Node.ofGap t ++ (.text s :: texts)).reverse ++ f.children } := by
        rw [Frame.addText_eq]
        simp [Frame.push]
      rw [hframe] at hleads
      exact (leads_characterSection f ancestors count hraw.stands hs).trans hleads
  | comment hc _ ih =>
    obtain ⟨texts, raw', t', k', count', ht, hraw', hcontent, hcount, hleads⟩ := ih f count hraw
    exact ⟨texts, raw', t', k', count', ht, hraw', hcontent, hcount,
      (leads_comment _ hc).trans hleads⟩

/-- What comes before an element, a gap included, stays behind as texts, or is dropped at the top of
the document. -/
theorem leads_before (f : Frame) (ancestors : List Frame) (count : Nat) {white gap : Text}
    (hw : ampersand ∉ white) (hgap : Gap gap) :
    ∃ (white' : Text) (texts : List Node), ampersand ∉ white' ∧
      (∀ child ∈ texts, child.isElement = false) ∧
      f.beforeTag white' = { f with children := texts.reverse ++ f.children } ∧
      (inside f ancestors white count).Leads gap (inside f ancestors white' count) := by
  obtain ⟨more, hm, hleads⟩ := leads_gap (inside f ancestors white count) hgap
  obtain ⟨texts, ht, hbefore⟩ := f.exists_beforeTag_eq (white ++ more)
  exact ⟨white ++ more, texts, List.not_mem_append hw hm, ht, hbefore, hleads⟩

theorem push_append_texts (f : Frame) (texts more : List Node) (node : Node) :
    { Frame.push node { f with children := texts.reverse ++ f.children } with
      children := more.reverse ++
        (Frame.push node { f with children := texts.reverse ++ f.children }).children } =
      { f with children := (texts ++ node :: more).reverse ++ f.children } := by
  simp [Frame.push]

theorem leads_spelled {nodes : List Node} {s : Text} {n height : Nat} (h : Spelled nodes s n)
    (hs : ∀ node ∈ nodes, node.IsSound height) (f : Frame) (ancestors : List Frame) {white : Text}
    (hw : ampersand ∉ white) (count : Nat) (hd : ancestors.length + height ≤ Cursor.maxDepth) :
    ∃ (more : List Node) (white' : Text), ampersand ∉ white' ∧ Shows nodes more ∧
      (inside f ancestors white count).Leads s
        (inside { f with children := more.reverse ++ f.children } ancestors white'
          (count + n)) := by
  -- `white` is the gap before the text. It is put in when a tag is read.
  induction h generalizing height f ancestors white count with
  | nil hgap =>
    obtain ⟨more, hm, hleads⟩ := leads_gap (inside f ancestors white count) hgap
    exact ⟨[], white ++ more, List.not_mem_append hw hm, .nil, hleads⟩
  | @empty gap name rest attributes t nodes k n hgap ht _ ih =>
    obtain ⟨hsound, hs⟩ := List.forall_mem_cons.mp hs
    have htag := ht.isSound hsound.isPlainTag
    obtain ⟨before, texts, hb, htexts, hbefore, hleads⟩ := leads_before f ancestors count hw hgap
    have helement := leads_empty htag f ancestors count hb ht.standFor
    rw [hbefore, ht.name] at helement
    obtain ⟨more, white', hw', hshows, hmore⟩ :=
      ih hs
        (Frame.push (.element name attributes []) { f with
          children := texts.reverse ++ f.children }) ancestors
        List.not_mem_nil (count + k) hd
    rw [push_append_texts, Nat.add_assoc] at hmore
    refine ⟨texts ++ .element name attributes [] :: more, white', hw', ?_,
      hleads.trans (helement.trans hmore)⟩
    exact Shows.texts_append htexts
      (.leaf (s := []) (fun _ hm ↦ absurd hm List.not_mem_nil) rfl hshows)
  | @leaf gap name raw value space rest attributes t nodes k m n hgap ht hcontent hspace _ ih =>
    obtain ⟨hsound, hs⟩ := List.forall_mem_cons.mp hs
    have hplain := hsound.isPlainTag
    have htag := ht.isSound hplain
    obtain ⟨before, texts, hb, htexts, hbefore, hleads⟩ := leads_before f ancestors count hw hgap
    have hopen := leads_open htag f ancestors count hb ht.standFor (by omega)
    rw [hbefore, ht.name] at hopen
    obtain ⟨inner, last, t', k', count', hinner, hlast, hvalue, hcount, hread⟩ :=
      leads_content hcontent ⟨name, attributes,
        []⟩ ({ f with children := texts.reverse ++ f.children } :: ancestors)
        (count + k) .nil
    simp only [List.append_nil] at hread
    have hclose := leads_close ⟨name, attributes, inner.reverse⟩ ancestors count'
      { f with children := texts.reverse ++ f.children } hlast.stands
      (hplain.name_isPlainName.not_mem rfl) (hspace.not_mem (by decide))
    rw [close_addText hplain.name_isPlainName, List.reverse_reverse, hcount] at hclose
    obtain ⟨more, white', hw', hshows, hmore⟩ :=
      ih hs (Frame.push (.element name attributes (inner ++ Node.ofGap t')) { f with
        children := texts.reverse ++ f.children })
        ancestors List.not_mem_nil (count + k + m) hd
    rw [push_append_texts, show count + k + m + n = count + (k + m + n) by omega] at hmore
    refine ⟨texts ++ .element name attributes (inner ++ Node.ofGap t') :: more, white', hw', ?_,
      hleads.trans (hopen.trans (hread.trans (hclose.trans hmore)))⟩
    refine Shows.texts_append htexts (.leaf ?_ ?_ hshows)
    · exact List.forall_mem_append.mpr ⟨hinner, Node.isElement_ofGap t'⟩
    · rw [Node.content_append, Node.content_ofGap, hvalue, List.nil_append]
  | @container gap name inner space rest attributes t children nodes k m n hgap ht hne hinner hspace
      _ ihinner ih =>
    obtain ⟨hsound, hs⟩ := List.forall_mem_cons.mp hs
    have hplain := hsound.isPlainTag
    have htag := ht.isSound hplain
    obtain ⟨below, rfl, hchildren⟩ := hsound.exists_below hne hinner.isElement
    obtain ⟨before, texts, hb, htexts, hbefore, hleads⟩ := leads_before f ancestors count hw hgap
    have hopen := leads_open htag f ancestors count hb ht.standFor (by omega)
    rw [hbefore, ht.name] at hopen
    obtain ⟨items, last, hlast, hitems, hread⟩ := ihinner hchildren ⟨name, attributes, []⟩
      ({ f with children := texts.reverse ++ f.children } :: ancestors) List.not_mem_nil (count + k)
      (by rw [List.length_cons]; omega)
    simp only [List.append_nil] at hread
    have hclose := leads_close ⟨name, attributes, items.reverse⟩ ancestors (count + k + m)
      { f with children := texts.reverse ++ f.children }
      (Expansion.stands_self hlast) (hplain.name_isPlainName.not_mem rfl)
        (hspace.not_mem (by decide))
    rw [close_addText hplain.name_isPlainName, List.reverse_reverse] at hclose
    obtain ⟨more, white', hw', hshows, hmore⟩ :=
      ih hs (Frame.push (.element name attributes (items ++ Node.ofGap last)) { f with
        children := texts.reverse ++ f.children })
        ancestors List.not_mem_nil (count + k + m) hd
    rw [push_append_texts, show count + k + m + n = count + (k + m + n) by omega] at hmore
    refine ⟨texts ++ .element name attributes (items ++ Node.ofGap last) :: more, white', hw', ?_,
      hleads.trans (hopen.trans (hread.trans (hclose.trans hmore)))⟩
    exact Shows.texts_append htexts
      (.container hne (hitems.append_texts (Node.isElement_ofGap last)) hshows)

end Reading
end AnalysisProject.Markup
