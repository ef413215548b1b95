import AnalysisProject.Proofs.Markup.Construction
import AnalysisProject.Proofs.Markup.Layout
import AnalysisProject.Proofs.Markup.Provenance
import AnalysisProject.Proofs.Text.Lines
import AnalysisProject.Proofs.Text.Search
import Mathlib.Data.List.Infix

namespace AnalysisProject

open CodeUnit

namespace Text

def IsWhite (s : Text) : Prop := ∀ c ∈ s, c ∈ [space, tab, lineFeed]

instance (s : Text) : Decidable s.IsWhite :=
  inferInstanceAs (Decidable (∀ c ∈ s, c ∈ [space, tab, lineFeed]))

theorem IsWhite.isSpace {s : Text} (h : s.IsWhite) : s.IsSpace := by
  have hall : ∀ c ∈ [space, tab, lineFeed], c.isXmlSpace = true := by decide
  intro c hc
  exact hall c (h c hc)

theorem IsWhite.not_mem {s : Text} (h : s.IsWhite) {c : CodeUnit}
    (hc : c ∉ [space, tab, lineFeed]) : c ∉ s :=
  fun hm ↦ hc (h c hm)

end Text

namespace Markup

/-- `raw` is the text `s` with some characters written by their references, among them all that
begin markup, and `n` of these references count. -/
inductive Escaped : Text → Text → Nat → Prop
  | nil : Escaped [] [] 0
  | plain {c : CodeUnit} {raw s : Text} {n : Nat} :
      c ≠ ampersand → c ≠ less → Escaped raw s n → Escaped (c :: raw) (c :: s) n
  | reference {c : CodeUnit} {reference raw s : Text} {n : Nat} :
      (c, reference) ∈ Reference.written → Escaped raw s n →
      Escaped (reference ++ raw) (c :: s) ((if Reference.isCounted c then 1 else 0) + n)

def comment (c : Text) : Text := "<!--" ++ (c ++ "-->")

def characterSection (s : Text) : Text := "<![CDATA[" ++ (s ++ "]]>")

inductive Gap : Text → Prop
  | nil : Gap []
  | white {s rest : Text} : s.IsWhite → Gap rest → Gap (s ++ rest)
  | comment {c rest : Text} : ¬ ("-->" : Text) <:+: c → Gap rest → Gap (comment c ++ rest)

inductive Content : Text → Text → Nat → Prop
  | nil : Content [] [] 0
  | run {raw s rest t : Text} {m n : Nat} : Escaped raw s m → Content rest t n →
    Content (raw ++ rest) (s ++ t) (m + n)
  | characterSection {s rest t : Text} {n : Nat} :
      ¬ ("]]>" : Text) <:+: s → Content rest t n → Content (characterSection s ++ rest) (s ++ t) n
  | comment {c rest t : Text} {n : Nat} :
      ¬ ("-->" : Text) <:+: c → Content rest t n → Content (comment c ++ rest) t n

inductive Attributes.Spelled : Attributes → List WrittenAttribute → Nat → Prop
  | nil : Spelled [] [] 0
  | cons {a : WrittenAttribute} {value : Text} {attributes : Attributes}
    {written : List WrittenAttribute} {m n : Nat} :
      a.space.IsWhite → a.space ≠ [] → a.beforeEquals.IsWhite → a.afterEquals.IsWhite →
      a.mark.isQuote = true → a.mark ∉ a.raw → Escaped a.raw value m →
        Spelled attributes written n →
      Spelled ((a.name, value) :: attributes) (a :: written) (m + n)

structure WrittenTag.Spells (t : WrittenTag) (name : Text) (attributes : Attributes) (n : Nat) :
    Prop where
  name : t.name = name
  attributes : attributes.Spelled t.attributes n
  last : t.last.IsWhite

/-- The text spells the elements, one after the other, with gaps in front of and behind each; `n`
references count. -/
inductive Spelled : List Node → Text → Nat → Prop
  | nil {gap : Text} : Gap gap → Spelled [] gap 0
  | empty {gap name rest : Text} {attributes : Attributes} {t : WrittenTag} {nodes : List Node}
    {k n : Nat} :
      Gap gap → t.Spells name attributes k → Spelled nodes rest n →
      Spelled (.element name attributes [] :: nodes) (gap ++ (t.emptyText ++ rest)) (k + n)
  | leaf {gap name raw s space rest : Text} {attributes : Attributes} {t : WrittenTag}
    {nodes : List Node} {k m n : Nat} :
      Gap gap → t.Spells name attributes k → Content raw s m → space.IsWhite →
        Spelled nodes rest n →
      Spelled (.element name attributes (if s.isEmpty then [] else [.text s]) :: nodes)
        (gap ++ (t.openText ++ (raw ++ (WrittenTag.closeText name space ++ rest)))) (k + m + n)
  | container {gap name inner space rest : Text} {attributes : Attributes} {t : WrittenTag}
    {children nodes : List Node}
      {k m n : Nat} :
      Gap gap → t.Spells name attributes k → children ≠ [] → Spelled children inner m →
        space.IsWhite →
      Spelled nodes rest n →
      Spelled (.element name attributes children :: nodes)
        (gap ++ (t.openText ++ (inner ++ (WrittenTag.closeText name space ++ rest)))) (k + m + n)

theorem escaped_self {s : Text} (h : ∀ c ∈ s, c ≠ ampersand ∧ c ≠ less) : Escaped s s 0 := by
  induction s with
  | nil => exact .nil
  | cons c s ih =>
    obtain ⟨hc, hs⟩ := List.forall_mem_cons.mp h
    exact .plain hc.1 hc.2 (ih hs)

namespace Escaped

variable {raw s : Text} {n : Nat}

theorem append (h : Escaped raw s n) {more t : Text} {m : Nat} (h' : Escaped more t m) :
    Escaped (raw ++ more) (s ++ t) (n + m) := by
  induction h with
  | nil => rwa [Nat.zero_add]
  | plain ha hl _ ih => exact .plain ha hl ih
  | reference hw _ ih =>
    rw [List.append_assoc, Nat.add_assoc]
    exact .reference hw ih

theorem exists_spellAll (h : Escaped raw s n) :
    ∃ units, raw = Reference.spellAll [] units ∧ s = units.map Prod.fst ∧
      n = Reference.weight (Reference.referred units) ∧
      ∀ u ∈ units, u.2 = false → u.1 ≠ ampersand := by
  induction h with
  | nil => exact ⟨[], rfl, rfl, rfl, fun _ hm ↦ absurd hm List.not_mem_nil⟩
  | @plain c _ _ _ ha _ _ ih =>
    obtain ⟨units, rfl, rfl, rfl, hu⟩ := ih
    refine ⟨(c, false) :: units, rfl, rfl, rfl, fun u hm _ ↦ ?_⟩
    rcases List.mem_cons.mp hm with rfl | hm
    · exact ha
    · exact hu u hm ‹_›
  | @reference c reference _ _ _ hw _ ih =>
    obtain ⟨units, rfl, rfl, rfl, hu⟩ := ih
    have hspelling : Reference.spelling [] c = reference := by
      simp only [Reference.written, List.mem_cons, Prod.mk.injEq, List.not_mem_nil, or_false] at hw
      rcases hw with ⟨rfl, rfl⟩ | ⟨rfl, rfl⟩ | ⟨rfl, rfl⟩ | ⟨rfl, rfl⟩ | ⟨rfl, rfl⟩ <;> rfl
    refine ⟨(c, true) :: units, ?_, rfl, ?_, fun u hm hf ↦ ?_⟩
    · rw [← hspelling]
      rfl
    · have hreferred : Reference.referred ((c, true) :: units) = c :: Reference.referred units :=
        rfl
      rw [hreferred, Reference.weight, Reference.weight, List.countP_cons, Nat.add_comm]
    · rcases List.mem_cons.mp hm with rfl | hm
      · cases hf
      · exact hu u hm hf

theorem stands (h : Escaped raw s n) : Expansion.Stands raw s n where
  decode x hx := by
    obtain ⟨units, rfl, rfl, rfl, hu⟩ := h.exists_spellAll
    exact Expansion.decode_spellAll x hx hu
  empty he := by
    cases h with
    | nil => exact ⟨rfl, rfl⟩
    | plain _ _ _ => cases he
    | reference hw _ =>
      obtain ⟨t, rfl, -⟩ := Reference.eq_cons_of_mem_written hw
      cases he

theorem less_not_mem (h : Escaped raw s n) : less ∉ raw := by
  have hall : ∀ w ∈ Reference.written, less ∉ w.2 := by decide
  induction h with
  | nil => exact List.not_mem_nil
  | plain _ hl _ ih => exact List.not_mem_cons_of_ne_of_not_mem (Ne.symm hl) ih
  | reference hw _ ih => exact List.not_mem_append (hall _ hw) ih

theorem carriageReturn_not_mem (h : Escaped raw s n) (hs : carriageReturn ∉ s) :
    carriageReturn ∉ raw := by
  have hall : ∀ w ∈ Reference.written, carriageReturn ∉ w.2 := by decide
  induction h with
  | nil => exact hs
  | plain _ _ _ ih =>
    obtain ⟨hc, hs⟩ := List.ne_and_not_mem_of_not_mem_cons hs
    exact List.not_mem_cons_of_ne_of_not_mem hc (ih hs)
  | reference hw _ ih =>
    exact List.not_mem_append (hall _ hw) (ih (List.not_mem_of_not_mem_cons hs))

end Escaped

section Attributes

variable {attributes : Attributes} {written : List WrittenAttribute} {n : Nat}

theorem Attributes.Spelled.names (h : attributes.Spelled written n) :
    written.map WrittenAttribute.name = attributes.map Prod.fst := by
  induction h with
  | nil => rfl
  | cons _ _ _ _ _ _ _ _ ih => rw [List.map_cons, List.map_cons, ih]

theorem Attributes.Spelled.isSound (h : attributes.Spelled written n)
    (hn : ∀ key ∈ attributes.map Prod.fst, key.IsPlainName) : ∀ a ∈ written, a.IsSound ∧
      a.space ≠ [] := by
  induction h with
  | nil => exact fun _ hm ↦ absurd hm List.not_mem_nil
  | cons hspace hne hbefore hafter hmark hraw _ _ ih =>
    intro a hm
    rcases List.mem_cons.mp hm with rfl | hm
    · have hname := hn _ (List.mem_cons_self ..)
      exact ⟨⟨hspace.isSpace, hname, hbefore.isSpace, hafter.isSpace, hmark, hraw⟩, hne⟩
    · exact ih (fun key hk ↦ hn key (List.mem_cons_of_mem _ hk)) a hm

theorem Attributes.Spelled.standFor (h : attributes.Spelled written n) :
    StandFor (written.map fun a ↦ (a.name, a.raw)) attributes n := by
  induction h with
  | nil => exact .nil
  | cons _ _ _ _ _ _ hraw _ ih => exact .cons hraw.stands ih

variable {t : WrittenTag} {name : Text}

theorem WrittenTag.Spells.isSound (h : t.Spells name attributes n)
    (hp : IsPlainTag name attributes) : t.IsSound where
  name := h.name ▸ hp.name_isPlainName
  attributes := h.attributes.isSound fun key hm ↦ (hp.names key (List.mem_cons_of_mem _ hm)).1
  nodup := h.attributes.names ▸ hp.nodup
  last := h.last.isSpace

theorem WrittenTag.Spells.standFor (h : t.Spells name attributes n) :
    StandFor t.assignments attributes n :=
  h.attributes.standFor

theorem Attributes.Spelled.carriageReturn_not_mem (h : attributes.Spelled written n)
    (hn : ∀ key ∈ attributes.map Prod.fst, key.IsPlainName)
    (ha : ∀ a ∈ attributes, carriageReturn ∉ a.2) :
    carriageReturn ∉ written.flatMap WrittenAttribute.text := by
  induction h with
  | nil => exact List.not_mem_nil
  | @cons a value attributes written m n hspace _ hbefore hafter hmark _ hraw _ ih =>
    have hmore := ih (fun key hk ↦ hn key (List.mem_cons_of_mem _ hk)) fun a hm ↦ ha a
      (List.mem_cons_of_mem _ hm)
    have hname : carriageReturn ∉ a.name := (hn _ (List.mem_cons_self ..)).not_mem rfl
    have hvalue : carriageReturn ∉ a.raw :=
      hraw.carriageReturn_not_mem (ha _ (List.mem_cons_self ..))
    have hquote : carriageReturn ≠ a.mark := by
      intro he
      rw [← he] at hmark
      cases hmark
    rw [List.flatMap_cons, List.mem_append, not_or]
    refine ⟨?_, hmore⟩
    simp [WrittenAttribute.text, WrittenAttribute.assignment,
      hspace.not_mem (c := carriageReturn) (by decide), hname,
      hbefore.not_mem (c := carriageReturn) (by decide),
      hafter.not_mem (c := carriageReturn) (by decide), hquote, hvalue,
      carriageReturn, equal]

theorem WrittenTag.Spells.carriageReturn_not_mem (h : t.Spells name attributes n)
    (hp : IsPlainTag name attributes) (ha : ∀ a ∈ attributes, carriageReturn ∉ a.2) :
    carriageReturn ∉ t.openText ∧ carriageReturn ∉ t.emptyText := by
  have hname : carriageReturn ∉ t.name := h.name ▸ hp.name_isPlainName.not_mem rfl
  have hattributes := h.attributes.carriageReturn_not_mem
    (fun key hm ↦ (hp.names key (List.mem_cons_of_mem _ hm)).1) ha
  have hinside : carriageReturn ∉ t.inside :=
    List.not_mem_append hattributes (h.last.not_mem (by decide))
  constructor
  · simp [WrittenTag.openText, hname, hinside, carriageReturn, less, greater]
  · simp [WrittenTag.emptyText, hname, hinside, carriageReturn, less, greater, slash]

theorem carriageReturn_not_mem_closeText {name space : Text} (hn : name.IsPlainName)
    (hs : space.IsWhite) :
    carriageReturn ∉ WrittenTag.closeText name space := by
  simp [WrittenTag.closeText, hn.not_mem (c := carriageReturn) rfl,
    hs.not_mem (c := carriageReturn) (by decide), carriageReturn, less, slash, greater]

end Attributes

namespace Node

variable {height : Nat} {name : Text} {attributes : Attributes} {children : List Node}

theorem IsSound.isPlainTag (h : (element name attributes children).IsSound height) :
    IsPlainTag name attributes := by
  cases h <;> assumption

theorem IsSound.exists_below (h : (element name attributes children).IsSound height)
    (hne : children ≠ []) (he : ∀ child ∈ children, child.isElement = true) :
    ∃ below, height = below + 1 ∧ ∀ child ∈ children, child.IsSound below := by
  cases h with
  | empty _ => exact absurd rfl hne
  | text _ _ => cases he _ (List.mem_cons_self ..)
  | container _ _ hc => exact ⟨_, rfl, hc⟩

theorem Avoids.forall_attributes {c : CodeUnit}
    (h : (Node.element name attributes children).Avoids c) : ∀ a ∈ attributes, c ∉ a.2 := by
  cases h
  assumption

theorem Avoids.forall_children {c : CodeUnit}
    (h : (Node.element name attributes children).Avoids c) :
    ∀ child ∈ children, child.Avoids c := by
  cases h
  assumption

end Node

theorem Spelled.isElement {nodes : List Node} {s : Text} {n : Nat} (h : Spelled nodes s n) :
    ∀ node ∈ nodes, node.isElement = true := by
  induction h with
  | nil _ => exact fun _ hm ↦ absurd hm List.not_mem_nil
  | empty _ _ _ ih => exact List.forall_mem_cons.mpr ⟨rfl, ih⟩
  | leaf _ _ _ _ _ ih => exact List.forall_mem_cons.mpr ⟨rfl, ih⟩
  | container _ _ _ _ _ _ _ ih => exact List.forall_mem_cons.mpr ⟨rfl, ih⟩

section Lines

/-- A text in which only comments change when line ends are unified. -/
def Unifies (s s' : Text) : Prop := ∀ rest, Text.unifyLines (s ++ rest) = s' ++ rest.unifyLines

theorem Unifies.append {s s' t t' : Text} (h : Unifies s s') (h' : Unifies t t') :
    Unifies (s ++ t) (s' ++ t') := by
  intro rest
  rw [List.append_assoc, h, h', List.append_assoc]

theorem unifies_self {s : Text} (h : carriageReturn ∉ s) : Unifies s s := by
  intro rest
  induction s with
  | nil => rfl
  | cons c s ih =>
    obtain ⟨hc, hs⟩ := List.ne_and_not_mem_of_not_mem_cons h
    rw [List.cons_append, Text.unifyLines, Text.unifyFrom, if_neg (Ne.symm hc), Bool.false_and,
      if_neg Bool.false_ne_true]
    exact congrArg (c :: ·) (ih hs)

theorem unifies_comment (c : Text) : Unifies (comment c) (comment c.unifyLines) := by
  have hopen : ∀ d ∈ ("<!--" : Text), d.isSeam = true := by decide
  have hclose : ∀ d ∈ ("-->" : Text), d.isSeam = true := by decide
  intro rest
  rw [comment, comment, List.append_assoc, List.append_assoc,
    Text.unifyLines_seamless.append_left hopen,
    Text.unifyLines_seamless.append_middle c hclose (by decide), List.append_assoc,
    List.append_assoc]

theorem not_infix_unifyLines {pattern : Text} (hp : pattern.IsInLine)
    (hne : pattern ≠ []) {s : Text} (h : ¬ pattern <:+: s) : ¬ pattern <:+: s.unifyLines := by
  rw [← Text.splitFirst?_eq_none_iff hne] at h ⊢
  rw [Text.unifyLines, Text.splitFirst?_unifyFrom false hp hne, h, Option.map_none]

theorem Gap.exists_unifies {gap : Text} (h : Gap gap) : ∃ gap', Gap gap' ∧ Unifies gap gap' := by
  induction h with
  | nil => exact ⟨[], .nil, unifies_self List.not_mem_nil⟩
  | white hs _ ih =>
    obtain ⟨rest', hrest, hu⟩ := ih
    exact ⟨_, .white hs hrest, (unifies_self (hs.not_mem (by decide))).append hu⟩
  | comment hc _ ih =>
    obtain ⟨rest', hrest, hu⟩ := ih
    exact ⟨_, .comment (not_infix_unifyLines (by decide) (by decide) hc) hrest,
      (unifies_comment _).append hu⟩

theorem Content.exists_unifies {raw s : Text} {n : Nat} (h : Content raw s n)
    (hs : carriageReturn ∉ s) :
    ∃ raw', Content raw' s n ∧ Unifies raw raw' := by
  induction h with
  | nil => exact ⟨[], .nil, unifies_self List.not_mem_nil⟩
  | run hraw _ ih =>
    obtain ⟨hs, ht⟩ := not_or.mp (mt List.mem_append.mpr hs)
    obtain ⟨rest', hrest, hu⟩ := ih ht
    exact ⟨_, .run hraw hrest, (unifies_self (hraw.carriageReturn_not_mem hs)).append hu⟩
  | @characterSection s _ _ _ hc _ ih =>
    obtain ⟨hs, ht⟩ := not_or.mp (mt List.mem_append.mpr hs)
    obtain ⟨rest', hrest, hu⟩ := ih ht
    have hopen : carriageReturn ∉ ("<![CDATA[" : Text) := by decide
    have hclose : carriageReturn ∉ ("]]>" : Text) := by decide
    have hsection : carriageReturn ∉ Markup.characterSection s :=
      List.not_mem_append hopen (List.not_mem_append hs hclose)
    exact ⟨_, .characterSection hc hrest, (unifies_self hsection).append hu⟩
  | comment hc _ ih =>
    obtain ⟨rest', hrest, hu⟩ := ih hs
    exact ⟨_, .comment (not_infix_unifyLines (by decide) (by decide) hc) hrest,
      (unifies_comment _).append hu⟩

/-- Of a spelled text only the comments change when line ends are unified. -/
theorem Spelled.exists_unifies {nodes : List Node} {s : Text} {n height : Nat}
    (h : Spelled nodes s n) (hs : ∀ node ∈ nodes, node.IsSound height)
    (ha : ∀ node ∈ nodes, node.Avoids carriageReturn) :
    ∃ s', Spelled nodes s' n ∧ Unifies s s' := by
  induction h generalizing height with
  | nil hgap =>
    obtain ⟨gap', hgap, hu⟩ := hgap.exists_unifies
    exact ⟨gap', .nil hgap, hu⟩
  | empty hgap ht _ ih =>
    obtain ⟨hsound, hs⟩ := List.forall_mem_cons.mp hs
    obtain ⟨havoids, ha⟩ := List.forall_mem_cons.mp ha
    obtain ⟨gap', hgap, hu⟩ := hgap.exists_unifies
    obtain ⟨rest', hrest, hu'⟩ := ih hs ha
    have htag := ht.carriageReturn_not_mem hsound.isPlainTag havoids.forall_attributes
    exact ⟨_, .empty hgap ht hrest, hu.append ((unifies_self htag.2).append hu')⟩
  | @leaf gap name raw value space rest attributes t nodes k m n hgap ht hcontent hspace _ ih =>
    obtain ⟨hsound, hs⟩ := List.forall_mem_cons.mp hs
    obtain ⟨havoids, ha⟩ := List.forall_mem_cons.mp ha
    have hvalue : carriageReturn ∉ value := by
      have hchildren := havoids.forall_children
      split at hchildren
      · next he => exact List.isEmpty_iff.mp he ▸ List.not_mem_nil
      · cases hchildren _ (List.mem_cons_self ..)
        assumption
    obtain ⟨gap', hgap, hu⟩ := hgap.exists_unifies
    obtain ⟨raw', hcontent, hcu⟩ := hcontent.exists_unifies hvalue
    obtain ⟨rest', hrest, hu'⟩ := ih hs ha
    have htag := ht.carriageReturn_not_mem hsound.isPlainTag havoids.forall_attributes
    have hclose := carriageReturn_not_mem_closeText hsound.isPlainTag.name_isPlainName hspace
    exact ⟨_, .leaf hgap ht hcontent hspace hrest,
      hu.append ((unifies_self htag.1).append (hcu.append ((unifies_self hclose).append hu')))⟩
  | container hgap ht hne hinner hspace _ ihinner ih =>
    obtain ⟨hsound, hs⟩ := List.forall_mem_cons.mp hs
    obtain ⟨havoids, ha⟩ := List.forall_mem_cons.mp ha
    obtain ⟨below, -, hchildren⟩ := hsound.exists_below hne hinner.isElement
    obtain ⟨gap', hgap, hu⟩ := hgap.exists_unifies
    obtain ⟨inner', hinner, hiu⟩ := ihinner hchildren havoids.forall_children
    obtain ⟨rest', hrest, hu'⟩ := ih hs ha
    have htag := ht.carriageReturn_not_mem hsound.isPlainTag havoids.forall_attributes
    have hclose := carriageReturn_not_mem_closeText hsound.isPlainTag.name_isPlainName hspace
    exact ⟨_, .container hgap ht hne hinner hspace hrest,
      hu.append ((unifies_self htag.1).append (hiu.append ((unifies_self hclose).append hu')))⟩

end Lines
end Markup
end AnalysisProject
