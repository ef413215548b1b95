import AnalysisProject.Markup.Document

namespace AnalysisProject

open CodeUnit

namespace Text

theorem trimStart_subset (s : Text) : s.trimStart ⊆ s := (List.dropWhile_sublist _).subset

theorem splitFirst?_subset {pattern s before after : Text}
    (h : splitFirst? pattern s = some (before, after)) :
    before ⊆ s ∧ after ⊆ s := by
  induction s generalizing before with
  | nil => cases h
  | cons c s ih =>
    rw [splitFirst?] at h
    split at h
    · cases h
      exact ⟨List.nil_subset _, List.drop_subset _ _⟩
    · simp only [Option.map_eq_some_iff, Prod.exists, Prod.mk.injEq] at h
      obtain ⟨b, a, hs, rfl, rfl⟩ := h
      obtain ⟨hb, ha⟩ := ih hs
      exact ⟨List.cons_subset_cons c hb, List.subset_cons_of_subset c ha⟩

theorem after?_subset {pattern s after : Text} (h : after? pattern s = some after) : after ⊆ s := by
  simp only [after?, Option.map_eq_some_iff, Prod.exists, exists_eq_right] at h
  obtain ⟨before, hs⟩ := h
  exact (splitFirst?_subset hs).2

end Text

namespace Markup

theorem mem_spanTag {outside : CodeUnit → CodeUnit} {q : Option CodeUnit} {s : Text} {c : CodeUnit}
    (h : c ∈ (spanTag outside q s).inside) : ∃ d ∈ s, c = d ∨ c = outside d := by
  fun_induction spanTag outside q s with
  | case1 => cases h
  | case2 q d s ih =>
    rcases List.mem_cons.mp h with rfl | h
    · exact ⟨c, List.mem_cons_self .., .inl rfl⟩
    · obtain ⟨e, he, hc⟩ := ih h
      exact ⟨e, List.mem_cons_of_mem _ he, hc⟩
  | case3 => cases h
  | case4 d s _ _ ih =>
    rcases List.mem_cons.mp h with rfl | h
    · exact ⟨c, List.mem_cons_self .., .inl rfl⟩
    · obtain ⟨e, he, hc⟩ := ih h
      exact ⟨e, List.mem_cons_of_mem _ he, hc⟩
  | case5 d s _ _ ih =>
    rcases List.mem_cons.mp h with h | h
    · exact ⟨d, List.mem_cons_self .., .inr h⟩
    · obtain ⟨e, he, hc⟩ := ih h
      exact ⟨e, List.mem_cons_of_mem _ he, hc⟩

theorem spanTag_rest_subset (outside : CodeUnit → CodeUnit) (q : Option CodeUnit) (s : Text) :
    (spanTag outside q s).rest ⊆ s := by
  fun_induction spanTag outside q s with
  | case1 => exact List.nil_subset _
  | case2 q d s ih => exact List.subset_cons_of_subset d ih
  | case3 => exact List.Subset.refl _
  | case4 d s _ _ ih => exact List.subset_cons_of_subset d ih
  | case5 d s _ _ ih => exact List.subset_cons_of_subset d ih

namespace Attribute

theorem quoted?_subset {s value rest : Text} (h : quoted? s = some (value, rest)) :
    value ⊆ s ∧ rest ⊆ s := by
  cases s with
  | nil => cases h
  | cons c s =>
    rw [quoted?] at h
    split at h
    · obtain ⟨hv, hr⟩ := Text.splitFirst?_subset h
      exact ⟨List.subset_cons_of_subset c hv, List.subset_cons_of_subset c hr⟩
    · contradiction

theorem assigned?_subset {s value rest : Text} (h : assigned? s = some (value, rest)) :
    value ⊆ s ∧ rest ⊆ s := by
  simp only [assigned?, Option.bind_eq_some_iff] at h
  obtain ⟨t, ht, hq⟩ := h
  have hts : t ⊆ s := by
    rw [afterEquals?] at ht
    split at ht
    · cases ht
      exact List.Subset.trans (List.drop_subset _ _) (Text.trimStart_subset s)
    · contradiction
  obtain ⟨hv, hr⟩ := quoted?_subset hq
  have htrim := List.Subset.trans (Text.trimStart_subset t) hts
  exact ⟨List.Subset.trans hv htrim, List.Subset.trans hr htrim⟩

theorem assignments_subset (s : Text) : ∀ a ∈ assignments s, a.2 ⊆ s := by
  fun_induction assignments s with
  | case1 => exact fun _ h ↦ absurd h List.not_mem_nil
  | case2 s c t hs _ _ value next ha _ ih =>
    have ht : t ⊆ s := fun d hd ↦ (List.dropWhile_sublist _).subset (hs ▸ List.mem_cons_of_mem c hd)
    obtain ⟨hv, hn⟩ := assigned?_subset ha
    have hdrop := List.Subset.trans (List.dropWhile_sublist isNameUnit).subset ht
    intro a hm
    rcases List.mem_cons.mp hm with rfl | hm
    · exact List.Subset.trans hv hdrop
    · exact List.Subset.trans (ih a hm) (List.Subset.trans hn hdrop)
  | case3 s c t hs _ _ ha ih =>
    have ht : t ⊆ s := fun d hd ↦ (List.dropWhile_sublist _).subset (hs ▸ List.mem_cons_of_mem c hd)
    exact fun a hm ↦
      List.Subset.trans (ih a hm) (List.Subset.trans (List.dropWhile_sublist isNameUnit).subset ht)

end Attribute

namespace Doctype

theorem readLiteral_subset {literal : Literal} {s value rest : Text}
    (h : readLiteral literal s = .ok (value, rest)) :
    value ⊆ s ∧ rest ⊆ s := by
  cases s with
  | nil => cases h
  | cons c s =>
    rw [readLiteral] at h
    split at h
    · split at h
      · next hs =>
        cases h
        obtain ⟨hv, hr⟩ := Text.splitFirst?_subset hs
        exact ⟨List.subset_cons_of_subset c hv, List.subset_cons_of_subset c hr⟩
      · contradiction
    · contradiction

theorem readName_subset (isEnd : CodeUnit → Bool) (s : Text) : (readName isEnd s).2 ⊆ s :=
  List.Subset.trans (Text.trimStart_subset _)
    (List.Subset.trans (List.dropWhile_sublist _).subset (Text.trimStart_subset s))

theorem readEntity_subset {s name value rest : Text} (h : readEntity s = .ok (name, value, rest)) :
    value ⊆ s ∧ rest ⊆ s := by
  have hs := readName_subset (fun c ↦ c.isBlank || c.isQuote) s
  simp only [readEntity] at h
  split at h
  · contradiction
  · split at h
    · contradiction
    · split at h
      · contradiction
      · split at h
        · contradiction
        · next hl =>
          split at h
          · contradiction
          · cases h
            obtain ⟨hv, hr⟩ := readLiteral_subset hl
            exact ⟨List.Subset.trans hv hs, List.Subset.trans hr hs⟩

theorem readElement_subset {s rest : Text} (h : readElement s = .ok rest) : rest ⊆ s := by
  have hs := readName_subset CodeUnit.isBlank s
  refine List.Subset.trans ?_ hs
  simp only [readElement] at h
  split at h
  · contradiction
  · split at h
    · cases h
      exact List.drop_subset _ _
    · split at h
      · cases h
        exact List.drop_subset _ _
      · split at h
        · split at h
          · next ha =>
            cases h
            exact Text.after?_subset ha
          · contradiction
        · contradiction

theorem readPublic_subset {s rest : Text} (h : readPublic s = .ok rest) : rest ⊆ s := by
  rw [readPublic] at h
  split at h
  · contradiction
  · next t hl =>
    have ht : t.trimStart ⊆ s := List.Subset.trans (Text.trimStart_subset t)
      (List.Subset.trans (readLiteral_subset hl).2 (Text.trimStart_subset s))
    split at h
    · cases hq : readLiteral .systemIdentifier t.trimStart with
      | error e => simp [hq, Except.map] at h
      | ok p =>
        obtain ⟨value, rest⟩ := p
        simp only [hq, Except.map, Except.ok.injEq] at h
        exact h ▸ List.Subset.trans (readLiteral_subset hq).2 ht
    · cases h
      exact ht

theorem readSystem_subset {s rest : Text} (h : readSystem s = .ok rest) : rest ⊆ s := by
  rw [readSystem] at h
  split at h
  · contradiction
  · next hl =>
    split at h
    · contradiction
    · cases h
      exact List.Subset.trans (readLiteral_subset hl).2 (Text.trimStart_subset s)

theorem readNotation_subset {s rest : Text} (h : readNotation s = .ok rest) : rest ⊆ s := by
  have hs := readName_subset CodeUnit.isBlank s
  refine List.Subset.trans ?_ hs
  simp only [readNotation] at h
  split at h
  · contradiction
  · split at h
    · exact List.Subset.trans (readSystem_subset h) (List.drop_subset _ _)
    · split at h
      · exact List.Subset.trans (readPublic_subset h) (List.drop_subset _ _)
      · contradiction

end Doctype

theorem Entities.mem_declare {entities : Entities} {name value : Text} {e : Text × Text}
    (h : e ∈ entities.declare name value) : e.2 = value ∨ e ∈ entities := by
  induction entities with
  | nil => exact .inl (congrArg Prod.snd (List.mem_singleton.mp h))
  | cons d entities ih =>
    rw [declare] at h
    split at h
    · rcases List.mem_cons.mp h with rfl | h
      · exact .inl rfl
      · exact .inr (List.mem_cons_of_mem _ h)
    · rcases List.mem_cons.mp h with rfl | h
      · exact .inr (List.mem_cons_self ..)
      · exact (ih h).imp_right (List.mem_cons_of_mem _)

namespace Doctype

theorem scan_subset {depth : Nat} {inBody : Bool} {entities declared : Entities} {s rest : Text}
    (h : scan depth inBody entities s = .ok (declared, rest)) :
    (∀ e ∈ declared, e ∈ entities ∨ e.2 ⊆ s) ∧ rest ⊆ s := by
  have hstep {c : CodeUnit} {entities : Entities} {s t : Text} (ht : t ⊆ s)
      (h : (∀ e ∈ declared, e ∈ entities ∨ e.2 ⊆ t) ∧ rest ⊆ t) :
      (∀ e ∈ declared, e ∈ entities ∨ e.2 ⊆ c :: s) ∧ rest ⊆ c :: s :=
    ⟨fun e he ↦ (h.1 e he).imp_right fun hs ↦
      List.subset_cons_of_subset c (List.Subset.trans hs ht),
      List.subset_cons_of_subset c (List.Subset.trans h.2 ht)⟩
  fun_induction scan depth inBody entities s with
  | case1 => cases h
  | case2 => cases h
  | case3 depth inBody entities s _ name value t hr _ ih =>
    obtain ⟨hv, ht⟩ := readEntity_subset hr
    have hv := List.Subset.trans hv (List.drop_subset _ _)
    obtain ⟨he, hrest⟩ := hstep (c := less) (List.Subset.trans ht (List.drop_subset _ _)) (ih h)
    refine ⟨fun e hm ↦ ?_, hrest⟩
    rcases he e hm with hm | hs
    · split at hm
      · exact .inl hm
      · rcases Entities.mem_declare hm with rfl | hm
        · exact .inr (List.subset_cons_of_subset less hv)
        · exact .inl hm
    · exact .inr hs
  | case4 => cases h
  | case5 depth inBody entities s _ _ t hr _ ih =>
    exact hstep (List.Subset.trans (readElement_subset hr) (List.drop_subset _ _)) (ih h)
  | case6 depth inBody entities s _ _ _ ih => exact hstep (List.drop_subset _ _) (ih h)
  | case7 => cases h
  | case8 depth inBody entities s _ _ _ _ t hr _ ih =>
    exact hstep (List.Subset.trans (readNotation_subset hr) (List.drop_subset _ _)) (ih h)
  | case9 => cases h
  | case10 depth inBody entities s _ _ _ _ _ comment t hr _ ih =>
    exact hstep (List.Subset.trans (Text.splitFirst?_subset hr).2 (List.drop_subset _ _)) (ih h)
  | case11 => cases h
  | case12 depth inBody entities s _ _ =>
    cases h
    exact ⟨fun e he ↦ .inl he, List.subset_cons_self _ _⟩
  | case13 depth inBody entities s _ _ ih => exact hstep (List.Subset.refl _) (ih h)
  | case14 depth inBody entities c s _ _ ih => exact hstep (List.Subset.refl _) (ih h)

theorem read_subset {s rest : Text} {entities : Entities} (h : read s = .ok (entities, rest)) :
    (∀ e ∈ entities, e.2 ⊆ s) ∧ rest ⊆ s := by
  rw [read] at h
  split at h
  · obtain ⟨he, hr⟩ := scan_subset h
    have hs : s.drop 6 ⊆ s := List.drop_subset _ _
    exact ⟨fun e hm ↦ List.Subset.trans ((he e hm).resolve_left List.not_mem_nil) hs,
      List.Subset.trans hr hs⟩
  · contradiction

end Doctype

namespace Reading

theorem skipInstruction?_subset {q : Option CodeUnit} {s rest : Text}
    (h : skipInstruction? q s = some rest) :
    rest ⊆ s := by
  fun_induction skipInstruction? q s with
  | case1 => cases h
  | case2 q c s ih => exact List.subset_cons_of_subset c (ih h)
  | case3 c s _ =>
    cases h
    exact List.subset_cons_of_subset c (List.drop_subset _ _)
  | case4 c s _ ih => exact List.subset_cons_of_subset c (ih h)

theorem section?_subset {s inside rest : Text} (h : section? s = some (inside, rest)) :
    inside ⊆ s ∧ rest ⊆ s := by
  simp only [section?, Option.map_eq_some_iff, Prod.exists, Prod.mk.injEq] at h
  obtain ⟨before, after, hs, rfl, rfl⟩ := h
  obtain ⟨hb, ha⟩ := Text.splitFirst?_subset hs
  refine ⟨?_, ha⟩
  split
  · exact List.Subset.trans (List.drop_subset _ _) hb
  · exact List.Subset.trans (List.drop_subset _ _) (List.take_subset _ _)

theorem tag?_subset {s inside rest : Text} (h : tag? s = some (inside, rest)) :
    (∀ c ∈ inside, c ∈ s ∨ c = space) ∧ rest ⊆ s := by
  simp only [tag?] at h
  split at h
  · contradiction
  · cases h
    refine ⟨fun c hc ↦ ?_,
      List.Subset.trans (List.drop_subset _ _) (spanTag_rest_subset blankTab none s)⟩
    obtain ⟨d, hd, rfl | rfl⟩ := mem_spanTag hc
    · exact .inl hd
    · rw [blankTab]
      split
      · exact .inr rfl
      · exact .inl hd

theorem splitName_subset (s : Text) : (splitName s).2 ⊆ s := by
  rw [splitName]
  split
  · exact List.Subset.trans (Text.trimStart_subset _) (List.dropWhile_sublist _).subset
  · exact List.Subset.refl _

end Reading
end Markup
end AnalysisProject
