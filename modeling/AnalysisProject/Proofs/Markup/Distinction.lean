import AnalysisProject.Proofs.Markup.Layout

namespace AnalysisProject

open CodeUnit

namespace Text

/-- Two texts that agree do so in what comes before their first units outside of a set, in these,
and in the rest. -/
theorem append_cons_inj {p : CodeUnit → Bool} {s t rest rest' : Text} {c d : CodeUnit}
    (hs : ∀ x ∈ s, p x = true) (ht : ∀ x ∈ t, p x = true) (hc : p c = false) (hd : p d = false)
    (h : s ++ c :: rest = t ++ d :: rest') :
    s = t ∧ c = d ∧ rest = rest' := by
  induction s generalizing t with
  | nil =>
    cases t with
    | nil => exact ⟨rfl, List.cons.inj h⟩
    | cons x t =>
      rw [(List.cons.inj h).1, ht x (List.mem_cons_self ..)] at hc
      cases hc
  | cons x s ih =>
    obtain ⟨hx, hs⟩ := List.forall_mem_cons.mp hs
    cases t with
    | nil =>
      rw [← (List.cons.inj h).1, hx] at hd
      cases hd
    | cons y t =>
      obtain ⟨rfl, htail⟩ := List.cons.inj h
      obtain ⟨rfl, hrest⟩ := ih hs (List.forall_mem_cons.mp ht).2 htail
      exact ⟨rfl, hrest⟩

theorem append_cons_inj_of_not_mem {c : CodeUnit} {s t rest rest' : Text} (hs : c ∉ s) (ht : c ∉ t)
    (h : s ++ c :: rest = t ++ c :: rest') : s = t ∧ rest = rest' := by
  have hne {s : Text} (hs : c ∉ s) : ∀ x ∈ s, (x != c) = true :=
    fun x hx ↦ bne_iff_ne.mpr fun he ↦ hs (he ▸ hx)
  have hself : (c != c) = false := bne_self_eq_false c
  obtain ⟨hst, -, hrest⟩ := append_cons_inj (hne hs) (hne ht) hself hself h
  exact ⟨hst, hrest⟩

end Text

namespace Markup

variable {name other rest rest' : Text} {attributes others : Attributes}

namespace Attributes

theorem inside_inj (h : ∀ key ∈ attributes.map Prod.fst, equal ∉ key)
    (h' : ∀ key ∈ others.map Prod.fst, equal ∉ key) {c d : CodeUnit} (hc : c ≠ space)
    (hd : d ≠ space)
    (he : (attributes.tag name).inside ++ c :: rest = (others.tag other).inside ++ d :: rest') :
    attributes = others ∧ c = d ∧ rest = rest' := by
  have htext (key value : Text) (attributes : Attributes) (name rest : Text) :
      (tag ((key, value) :: attributes) name).inside ++ rest = space ::
        (key ++ equal :: quote ::
          (Reference.escape value ++ quote :: ((attributes.tag name).inside ++ rest))) := by
    simp [tag_inside_cons]
  induction attributes generalizing others with
  | nil =>
    cases others with
    | nil => exact ⟨rfl, List.cons.inj he⟩
    | cons b others =>
      rw [htext] at he
      exact absurd (List.cons.inj he).1 hc
  | cons a attributes ih =>
    obtain ⟨key, value⟩ := a
    rw [htext] at he
    cases others with
    | nil => exact absurd (List.cons.inj he).1.symm hd
    | cons b others =>
      obtain ⟨key', value'⟩ := b
      obtain ⟨hkey, hkeys⟩ := List.forall_mem_cons.mp h
      obtain ⟨hkey', hkeys'⟩ := List.forall_mem_cons.mp h'
      rw [htext] at he
      obtain ⟨hname, hvalues⟩ := Text.append_cons_inj_of_not_mem hkey hkey' (List.cons.inj he).2
      obtain ⟨hvalue, hmore⟩ :=
        Text.append_cons_inj_of_not_mem (c := quote) (Reference.not_mem_escape rfl value)
        (Reference.not_mem_escape rfl value') (List.cons.inj hvalues).2
      obtain ⟨rfl, hrest⟩ := ih hkeys hkeys' hmore
      obtain rfl := Reference.escape_injective hvalue
      exact ⟨congrArg (fun name ↦ (name, value) :: attributes) hname, hrest⟩

theorem exists_inside_append (attributes : Attributes) (name : Text) {c : CodeUnit}
    (hc : c.isPlain = false) (rest : Text) : ∃ d t, (attributes.tag name).inside ++ c :: rest =
      d :: t ∧ d.isPlain = false := by
  cases attributes with
  | nil => exact ⟨c, rest, rfl, hc⟩
  | cons a attributes => exact ⟨space, _, rfl, rfl⟩

end Attributes

/-- Tags that begin like each other have the same name and attributes, and end in the same way. -/
theorem IsPlainTag.inj (h : IsPlainTag name attributes) (h' : IsPlainTag other others)
    {c d : CodeUnit} (hc : c = slash ∨ c = greater) (hd : d = slash ∨ d = greater)
    (he : less :: (name ++ ((attributes.tag name).inside ++ c :: rest)) =
      less :: (other ++ ((others.tag other).inside ++ d :: rest'))) :
    name = other ∧ attributes = others ∧ c = d ∧ rest = rest' := by
  have hend {c : CodeUnit} (hc : c = slash ∨ c = greater) : c.isPlain = false ∧ c ≠ space := by
    rcases hc with rfl | rfl <;> decide
  have hkeys {name : Text} {attributes : Attributes} (h : IsPlainTag name attributes) :
      ∀ key ∈ attributes.map Prod.fst, equal ∉ key :=
    fun key hm ↦ h.not_mem (List.mem_cons_of_mem _ hm) rfl
  obtain ⟨x, s, hs, hx⟩ := attributes.exists_inside_append name (hend hc).1 rest
  obtain ⟨y, t, ht, hy⟩ := others.exists_inside_append other (hend hd).1 rest'
  have hnames := (List.cons.inj he).2
  rw [hs, ht] at hnames
  obtain ⟨rfl, -, -⟩ :=
    Text.append_cons_inj h.name_isPlainName.isPlain h'.name_isPlainName.isPlain hx hy hnames
  have hinside := List.append_cancel_left (List.cons.inj he).2
  exact ⟨rfl, Attributes.inside_inj (hkeys h) (hkeys h') (hend hc).2 (hend hd).2 hinside⟩

namespace Node

variable {gap : Nat → Text} {depth height height' : Nat} {s : Text} {children : List Node}

theorem spell_empty_append : (element name attributes []).spell gap depth ++ rest =
    less :: (name ++ ((attributes.tag name).inside ++ slash :: greater :: rest)) := by
  rw [spell_empty]
  simp [WrittenTag.emptyText, Attributes.tag]

theorem spell_text_append (hs : s ≠ []) :
    (element name attributes [text s]).spell gap depth ++ rest =
    less :: (name ++ ((attributes.tag name).inside ++ greater ::
      (Reference.escape s ++ less :: slash :: (name ++ greater :: rest)))) := by
  rw [spell_text hs]
  simp [WrittenTag.openText, WrittenTag.closeText, Attributes.tag]

theorem spell_container_append (hne : children ≠ [])
    (h : ∀ child ∈ children, child.IsSound height) :
    (element name attributes children).spell gap depth ++ rest =
      less :: (name ++ ((attributes.tag name).inside ++ greater ::
        (children.flatMap (fun child ↦ gap (depth + 1) ++ child.spell gap (depth + 1)) ++
          (gap depth ++ less :: slash :: (name ++ greater :: rest))))) := by
  rw [spell_container hne h]
  simp [WrittenTag.openText, WrittenTag.closeText, Attributes.tag]

theorem IsSound.exists_spell_append {node : Node} (h : node.IsSound height) (gap : Nat → Text)
    (depth : Nat) (rest : Text) : ∃ c t, node.spell gap depth ++ rest = less :: c :: t ∧
      c ≠ slash := by
  have hname {name : Text} {attributes : Attributes} (ht : IsPlainTag name attributes) (t : Text) :
      ∃ c u, less :: (name ++ t) = less :: c :: u ∧ c ≠ slash := by
    obtain ⟨c, more, rfl⟩ := List.exists_cons_of_ne_nil ht.name_isPlainName.ne_nil
    exact ⟨c, more ++ t, rfl,
      isPlain_ne (ht.name_isPlainName.isPlain c (List.mem_cons_self ..)) rfl⟩
  cases h with
  | empty ht => exact spell_empty_append ▸ hname ht _
  | text ht hs => exact spell_text_append hs ▸ hname ht _
  | container ht hne hc => exact spell_container_append hne hc ▸ hname ht _

section Gaps

variable (hg : ∀ depth, less ∉ gap depth)

include hg

theorem close_ne_flatMap (hs : less ∉ s) (hne : children ≠ [])
    (h : ∀ child ∈ children, child.IsSound height) (he : s ++ less :: slash :: rest =
      children.flatMap (fun child ↦ gap depth ++ child.spell gap depth) ++ rest') : False := by
  obtain ⟨child, more, rfl⟩ := List.exists_cons_of_ne_nil hne
  rw [List.flatMap_cons, List.append_assoc, List.append_assoc] at he
  obtain ⟨c, t, ht, hc⟩ := (h child (List.mem_cons_self ..)).exists_spell_append gap depth
    (more.flatMap (fun child ↦ gap depth ++ child.spell gap depth) ++ rest')
  rw [ht] at he
  exact hc (List.cons.inj (Text.append_cons_inj_of_not_mem hs (hg depth) he).2).1.symm

theorem flatMap_spell_inj {siblings : List Node} (h : ∀ child ∈ children, child.IsSound height)
    (h' : ∀ child ∈ siblings, child.IsSound height')
    (ih : ∀ child ∈ children, ∀ sibling ∈ siblings, ∀ rest rest',
      child.spell gap depth ++ rest = sibling.spell gap depth ++ rest' → child = sibling ∧
        rest = rest')
    (hs : less ∉ s)
    (he : children.flatMap (fun child ↦ gap depth ++ child.spell gap depth) ++
      (s ++ less :: slash :: rest) =
      siblings.flatMap (fun child ↦ gap depth ++ child.spell gap depth) ++
        (s ++ less :: slash :: rest')) :
    children = siblings ∧ rest = rest' := by
  induction children generalizing siblings with
  | nil =>
    cases siblings with
    | nil => exact ⟨rfl, by simpa using List.append_cancel_left he⟩
    | cons sibling siblings => exact (close_ne_flatMap hg hs (List.cons_ne_nil _ _) h' he).elim
  | cons child children more =>
    cases siblings with
    | nil => exact (close_ne_flatMap hg hs (List.cons_ne_nil _ _) h he.symm).elim
    | cons sibling siblings =>
      rw [List.flatMap_cons, List.flatMap_cons, List.append_assoc, List.append_assoc,
        List.append_assoc, List.append_assoc] at he
      obtain ⟨rfl, hmore⟩ := ih child (List.mem_cons_self ..) sibling (List.mem_cons_self ..) _ _
        (List.append_cancel_left he)
      obtain ⟨rfl, hrest⟩ := more (List.forall_mem_cons.mp h).2 (List.forall_mem_cons.mp h').2
        (fun child hm sibling hm' ↦
          ih child (List.mem_cons_of_mem _ hm) sibling (List.mem_cons_of_mem _ hm')) hmore
      exact ⟨rfl, hrest⟩

/-- A node that has been laid out can be told from its text. -/
theorem IsSound.spell_inj {node other : Node} (h : node.IsSound height) (h' : other.IsSound height')
    (he : node.spell gap depth ++ rest = other.spell gap depth ++ rest') : node = other ∧
      rest = rest' := by
  have hdiffer : slash ≠ greater := by decide
  -- The unit behind the attributes tells an empty element from the others. Of these, a text runs up
  -- to the closing tag,
  -- and a gap up to another element.
  induction h generalizing depth height' other rest rest' with
  | @empty _ name attributes ht =>
    rw [spell_empty_append] at he
    cases h' with
    | empty ht' =>
      rw [spell_empty_append] at he
      obtain ⟨rfl, rfl, -, hend⟩ := ht.inj ht' (.inl rfl) (.inl rfl) he
      exact ⟨rfl, (List.cons.inj hend).2⟩
    | text ht' hs' =>
      rw [spell_text_append hs'] at he
      exact absurd (ht.inj ht' (.inl rfl) (.inr rfl) he).2.2.1 hdiffer
    | container ht' hne' hc' =>
      rw [spell_container_append hne' hc'] at he
      exact absurd (ht.inj ht' (.inl rfl) (.inr rfl) he).2.2.1 hdiffer
  | @text _ name attributes s ht hs =>
    rw [spell_text_append hs] at he
    cases h' with
    | empty ht' =>
      rw [spell_empty_append] at he
      exact absurd (ht.inj ht' (.inr rfl) (.inl rfl) he).2.2.1 hdiffer.symm
    | @text _ _ _ t ht' hs' =>
      rw [spell_text_append hs'] at he
      obtain ⟨rfl, rfl, -, htexts⟩ := ht.inj ht' (.inr rfl) (.inr rfl) he
      obtain ⟨htext, hend⟩ :=
        Text.append_cons_inj_of_not_mem (c := less) (Reference.not_mem_escape rfl s)
        (Reference.not_mem_escape rfl t) htexts
      obtain rfl := Reference.escape_injective htext
      exact ⟨rfl, by simpa using hend⟩
    | container ht' hne' hc' =>
      rw [spell_container_append hne' hc'] at he
      have hchildren := (ht.inj ht' (.inr rfl) (.inr rfl) he).2.2.2
      exact (close_ne_flatMap hg (Reference.not_mem_escape rfl s) hne' hc' hchildren).elim
  | @container height name attributes children ht hne hc ih =>
    rw [spell_container_append hne hc] at he
    cases h' with
    | empty ht' =>
      rw [spell_empty_append] at he
      exact absurd (ht.inj ht' (.inr rfl) (.inl rfl) he).2.2.1 hdiffer.symm
    | @text _ _ _ t ht' hs' =>
      rw [spell_text_append hs'] at he
      have hchildren := (ht.inj ht' (.inr rfl) (.inr rfl) he).2.2.2
      exact (close_ne_flatMap hg (Reference.not_mem_escape rfl t) hne hc hchildren.symm).elim
    | container ht' hne' hc' =>
      rw [spell_container_append hne' hc'] at he
      obtain ⟨rfl, rfl, -, hchildren⟩ := ht.inj ht' (.inr rfl) (.inr rfl) he
      obtain ⟨rfl, hend⟩ := flatMap_spell_inj hg hc hc'
        (fun child hm sibling hm' rest rest' ↦ ih child hm (hc' sibling hm')) (hg depth) hchildren
      exact ⟨rfl, by simpa using hend⟩

end Gaps
end Node
end Markup
end AnalysisProject
