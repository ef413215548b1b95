import AnalysisProject.Proofs.Except
import AnalysisProject.Proofs.Markup.Excerpt

namespace AnalysisProject

open CodeUnit

/-- The units that reading can bring in by itself. -/
def CodeUnit.introduced : List CodeUnit := [space, ampersand, apostrophe, greater, less, quote]

theorem Text.mem_replaceFrom {forms : List Text} {value s : Text} {n : Nat} {c : CodeUnit}
    (h : c ∈ replaceFrom forms value n s) : c ∈ value ∨ c ∈ s := by
  induction s generalizing n with
  | nil => simp [replaceFrom] at h
  | cons d s ih =>
    have of_tail {n : Nat} (h : c ∈ replaceFrom forms value n s) : c ∈ value ∨ c ∈ d :: s :=
      (ih h).imp_right (List.mem_cons_of_mem d)
    cases n with
    | succ n => exact of_tail h
    | zero =>
      rw [replaceFrom] at h
      split at h
      · rcases List.mem_append.mp h with h | h
        · exact .inl h
        · exact of_tail h
      · rcases List.mem_cons.mp h with rfl | h
        · exact .inr (List.mem_cons_self ..)
        · exact of_tail h

namespace Markup

variable {c : CodeUnit}

namespace Expansion

theorem mem_instantiate {before after value : Text} (h : c ∈ instantiate before after value) :
    c ∈ before ∨ c ∈ after ∨ c ∈ value := by
  fun_induction instantiate before after value with
  | case1 d e s hd ih =>
    rcases List.mem_cons.mp h with rfl | h
    · simp only [Bool.and_eq_true, decide_eq_true_eq] at hd
      exact .inr (.inr (hd.1 ▸ List.mem_cons_self ..))
    · exact (ih h).imp_right (Or.imp_right fun h ↦
        List.mem_cons_of_mem _ (List.mem_cons_of_mem _ h))
  | case2 d e s _ _ ih =>
    rcases List.mem_append.mp h with h | h
    · exact .inl h
    · exact (ih h).imp_right (Or.imp_right fun h ↦
        List.mem_cons_of_mem _ (List.mem_cons_of_mem _ h))
  | case3 d e s _ _ _ ih =>
    rcases List.mem_append.mp h with h | h
    · exact .inr (.inl h)
    · exact (ih h).imp_right (Or.imp_right fun h ↦
        List.mem_cons_of_mem _ (List.mem_cons_of_mem _ h))
  | case4 d e s _ _ _ ih =>
    rcases List.mem_cons.mp h with rfl | h
    · exact .inr (.inr (List.mem_cons_self ..))
    · exact (ih h).imp_right (Or.imp_right (List.mem_cons_of_mem _))
  | case5 => exact .inr (.inr h)

theorem mem_putIn {reference value seen s : Text} {n : Nat}
    (h : c ∈ putIn reference value seen n s) :
    c ∈ value ∨ c ∈ seen ∨ c ∈ s := by
  induction s generalizing seen n with
  | nil => simp [putIn] at h
  | cons d s ih =>
    have of_tail {n : Nat} (h : c ∈ putIn reference value (d :: seen) n s) :
        c ∈ value ∨ c ∈ seen ∨ c ∈ d :: s := by
      rcases ih h with h | h | h
      · exact .inl h
      · rcases List.mem_cons.mp h with rfl | h
        · exact .inr (.inr (List.mem_cons_self ..))
        · exact .inr (.inl h)
      · exact .inr (.inr (List.mem_cons_of_mem d h))
    cases n with
    | succ n => exact of_tail h
    | zero =>
      rw [putIn] at h
      split at h
      · rcases List.mem_append.mp h with h | h
        · rcases mem_instantiate h with h | h | h
          · exact .inr (.inl (List.mem_reverse.mp h))
          · exact .inr (.inr (List.drop_subset _ _ h))
          · exact .inl h
        · exact of_tail h
      · rcases List.mem_cons.mp h with rfl | h
        · exact .inr (.inr (List.mem_cons_self ..))
        · exact of_tail h

variable {x x' : Expansion} {s t : Text}

theorem not_mem_decodeDeclared {entities : Entities} (he : ∀ e ∈ entities, c ∉ e.2) (hs : c ∉ s)
    (h : x.decodeDeclared entities s = .ok (x', t)) : c ∉ t := by
  induction entities generalizing x s with
  | nil =>
    cases h
    exact hs
  | cons e entities ih =>
    obtain ⟨name, value⟩ := e
    have he' : ∀ e ∈ entities, c ∉ e.2 := fun e hm ↦ he e (List.mem_cons_of_mem _ hm)
    rw [decodeDeclared] at h
    split at h
    · exact ih he' hs h
    · obtain ⟨x₁, -, h⟩ := exists_of_bind_eq_ok h
      have hput : c ∉ putIn (ampersand :: name ++ [semicolon]) value [] 0 s := by
        intro hm
        rcases mem_putIn hm with hm | hm | hm
        · exact he _ (List.mem_cons_self ..) hm
        · cases hm
        · exact hs hm
      simp only at h
      split at h
      · cases h
      · exact ih he' hput h

theorem not_mem_decodePredefined {groups : List (List Text × CodeUnit)} (hg : ∀ g ∈ groups, c ≠ g.2)
    (hs : c ∉ s) (h : x.decodePredefined groups s = .ok (x', t)) : c ∉ t := by
  induction groups generalizing x s with
  | nil =>
    cases h
    exact hs
  | cons g groups ih =>
    obtain ⟨forms, d⟩ := g
    rw [decodePredefined] at h
    obtain ⟨x₁, -, h⟩ := exists_of_bind_eq_ok h
    refine ih (fun g hm ↦ hg g (List.mem_cons_of_mem _ hm)) (fun hm ↦ ?_) h
    rcases Text.mem_replaceFrom hm with hm | hm
    · exact hg _ (List.mem_cons_self ..) (List.mem_singleton.mp hm)
    · exact hs hm

theorem not_mem_decode (hc : c ∉ introduced) {entities : Entities} (he : ∀ e ∈ entities, c ∉ e.2)
    (hs : c ∉ s) (h : x.decode entities s = .ok (x', t)) : c ∉ t := by
  have hgroups : ∀ g ∈ Reference.predefined, g.2 ∈ introduced := by decide
  rw [decode] at h
  split at h
  · cases h
    exact hs
  · obtain ⟨⟨x₁, s₁⟩, h₁, h⟩ := exists_of_bind_eq_ok h
    have hs₁ := not_mem_decodeDeclared he hs h₁
    simp only at h
    split at h
    · cases h
      exact hs₁
    · obtain ⟨⟨x₂, s₂⟩, h₂, h⟩ := exists_of_bind_eq_ok h
      have hs₂ := not_mem_decodePredefined (fun g hg (he : c = g.2) ↦ hc (he ▸ hgroups g hg)) hs₁ h₂
      cases h
      intro hm
      rcases Text.mem_replaceFrom hm with hm | hm
      · rw [List.mem_singleton.mp hm] at hc
        exact hc (by decide)
      · exact hs₂ hm

end Expansion

namespace Node

inductive Avoids (c : CodeUnit) : Node → Prop
  | text {s : Text} : c ∉ s → Avoids c (text s)
  | element {name : Text} {attributes : Attributes} {children : List Node} :
      (∀ a ∈ attributes, c ∉ a.2) → (∀ child ∈ children, Avoids c child) →
      Avoids c (element name attributes children)

end Node

structure Frame.Avoids (c : CodeUnit) (f : Frame) : Prop where
  attributes : ∀ a ∈ f.attributes, c ∉ a.2
  children : ∀ child ∈ f.children, child.Avoids c

theorem Frame.Avoids.push {f : Frame} (h : f.Avoids c) {node : Node} (hn : node.Avoids c) :
    (f.push node).Avoids c where
  attributes := h.attributes
  children := by
    intro child hm
    rcases List.mem_cons.mp hm with rfl | hm
    · exact hn
    · exact h.children child hm

theorem Frame.Avoids.close {f : Frame} (h : f.Avoids c) : f.close.Avoids c :=
  .element h.attributes fun child hm ↦ h.children child (List.mem_reverse.mp hm)

namespace Cursor

inductive Avoids (c : CodeUnit) : Cursor → Prop
  | within {frame : Frame} {ancestors : List Frame} :
      frame.Avoids c → (∀ f ∈ ancestors, f.Avoids c) → Avoids c (within frame ancestors)
  | past {children : List Node} : (∀ child ∈ children, child.Avoids c) → Avoids c (past children)

theorem Avoids.leave {cursor : Cursor} (h : cursor.Avoids c) : cursor.leave.Avoids c := by
  cases h with
  | @within frame ancestors hf ha =>
    cases ancestors with
    | nil => exact .past fun child hm ↦ hf.children child (List.mem_reverse.mp hm)
    | cons parent ancestors =>
      exact .within ((ha parent (List.mem_cons_self ..)).push hf.close) fun f hm ↦
        ha f (List.mem_cons_of_mem _ hm)
  | past hc => exact .past hc

theorem Avoids.children {cursor : Cursor} (h : cursor.Avoids c) :
    ∀ node ∈ cursor.children, node.Avoids c := by
  cases h with
  | @within frame ancestors hf ha =>
    rw [Cursor.children]
    induction ancestors generalizing frame with
    | nil => exact fun node hm ↦ hf.children node (List.mem_reverse.mp hm)
    | cons parent ancestors ih =>
      exact ih ((ha parent (List.mem_cons_self ..)).push hf.close) fun f hm ↦
        ha f (List.mem_cons_of_mem _ hm)
  | past hc => exact hc

end Cursor

theorem Attributes.mem_set {attributes : Attributes} {name value : Text} {a : Text × Text}
    (h : a ∈ attributes.set name value) : a.2 = value ∨ a ∈ attributes := by
  induction attributes with
  | nil => exact .inl (congrArg Prod.snd (List.mem_singleton.mp h))
  | cons b attributes ih =>
    rw [set] at h
    split at h
    · rcases List.mem_cons.mp h with rfl | h
      · exact .inl rfl
      · exact .inr (List.mem_cons_of_mem _ h)
    · rcases List.mem_cons.mp h with rfl | h
      · exact .inr (List.mem_cons_self ..)
      · exact (ih h).imp_right (List.mem_cons_of_mem _)

namespace Reading

structure Avoids (c : CodeUnit) (r : Reading) : Prop where
  cursor : r.cursor.Avoids c
  pending : c ∉ r.pending
  entities : ∀ e ∈ r.entities, c ∉ e.2

variable {r r' : Reading} {s t : Text}

theorem Avoids.decode (hr : r.Avoids c) (hc : c ∉ introduced) (hs : c ∉ s)
    (h : r.decode s = .ok (r', t)) :
    r'.Avoids c ∧ c ∉ t := by
  rw [Reading.decode] at h
  split at h
  · next hd =>
    cases h
    exact ⟨⟨hr.cursor, hr.pending, hr.entities⟩, Expansion.not_mem_decode hc hr.entities hs hd⟩
  · cases h

theorem Avoids.flush (hr : r.Avoids c) (hc : c ∉ introduced) (h : r.flush = .ok r') :
    r'.Avoids c := by
  rw [Reading.flush] at h
  split at h
  · cases h
    exact hr
  · split at h
    · cases h
    · next frame ancestors hcursor =>
      obtain ⟨⟨r₁, s⟩, hd, h⟩ := exists_of_bind_eq_ok h
      obtain ⟨hr₁, hs⟩ := hr.decode hc hr.pending hd
      cases h
      have hwithin := hr.cursor
      rw [hcursor] at hwithin
      cases hwithin with
      | within hf ha =>
        refine ⟨.within ?_ ha, List.not_mem_nil, hr₁.entities⟩
        split
        · exact hf
        · exact hf.push (.text hs)

theorem Avoids.closeTag (hr : r.Avoids c) (hc : c ∉ introduced) (h : r.closeTag = .ok r') :
    r'.Avoids c := by
  rw [Reading.closeTag] at h
  split at h
  · obtain ⟨r₁, hflush, h⟩ := exists_of_bind_eq_ok h
    have hr₁ := hr.flush hc hflush
    cases h
    exact ⟨hr₁.cursor.leave, List.not_mem_nil, hr₁.entities⟩
  · cases h
    exact ⟨hr.cursor.leave, List.not_mem_nil, hr.entities⟩

theorem Avoids.addSection (hr : r.Avoids c) (hc : c ∉ introduced) (hs : c ∉ s)
    (h : r.addSection s = .ok r') :
    r'.Avoids c := by
  rw [Reading.addSection] at h
  obtain ⟨r₁, hflush, h⟩ := exists_of_bind_eq_ok h
  have hr₁ := hr.flush hc hflush
  split at h
  · cases h
  · next frame ancestors hcursor =>
    cases h
    have hwithin := hr₁.cursor
    rw [hcursor] at hwithin
    cases hwithin with
    | within hf ha => exact ⟨.within (hf.push (.text hs)) ha, hr₁.pending, hr₁.entities⟩

theorem Avoids.decodeAttributes {attributes decoded : Attributes} {raws : List (Text × Text)}
    (hr : r.Avoids c) (hc : c ∉ introduced) (ha : ∀ a ∈ attributes, c ∉ a.2)
    (hraws : ∀ a ∈ raws, c ∉ a.2) (h : r.decodeAttributes attributes raws = .ok (r', decoded)) :
    r'.Avoids c ∧ ∀ a ∈ decoded, c ∉ a.2 := by
  induction raws generalizing r attributes with
  | nil =>
    cases h
    exact ⟨hr, ha⟩
  | cons raw raws ih =>
    obtain ⟨name, value⟩ := raw
    rw [Reading.decodeAttributes] at h
    obtain ⟨⟨r₁, t⟩, hd, h⟩ := exists_of_bind_eq_ok h
    obtain ⟨hr₁, ht⟩ := hr.decode hc (hraws _ (List.mem_cons_self ..)) hd
    refine ih hr₁ (fun a hm ↦ ?_) (fun a hm ↦ hraws a (List.mem_cons_of_mem _ hm)) h
    rcases Attributes.mem_set hm with hv | hm
    · exact hv ▸ ht
    · exact ha a hm

theorem Avoids.flushBeforeTag (hr : r.Avoids c) (hc : c ∉ introduced)
    (h : r.flushBeforeTag = .ok r') :
    r'.Avoids c := by
  rw [Reading.flushBeforeTag] at h
  split at h
  · split at h
    · cases h
      exact hr
    · exact hr.flush hc h
  · cases h
    exact hr

theorem Avoids.addElement {name : Text} {raws : List (Text × Text)} (hr : r.Avoids c)
    (hc : c ∉ introduced) (hraws : ∀ a ∈ raws, c ∉ a.2)
    (h : r.addElement name raws = .ok r') : r'.Avoids c := by
  rw [Reading.addElement] at h
  obtain ⟨r₁, hflush, h⟩ := exists_of_bind_eq_ok h
  obtain ⟨⟨r₂, attributes⟩, hd, h⟩ := exists_of_bind_eq_ok h
  obtain ⟨hr₂, ha⟩ := (hr.flushBeforeTag hc hflush).decodeAttributes hc (fun _ hm ↦
    absurd hm List.not_mem_nil) hraws hd
  simp only at h
  split at h
  · cases h
  · next frame ancestors hcursor =>
    cases h
    have hwithin := hr₂.cursor
    rw [hcursor] at hwithin
    cases hwithin with
    | within hf hanc =>
      have hnew : Frame.Avoids c ⟨name, attributes, []⟩ :=
        ⟨ha, fun _ hm ↦ absurd hm List.not_mem_nil⟩
      exact ⟨.within (hf.push hnew.close) hanc, List.not_mem_nil, hr₂.entities⟩

theorem Avoids.openElement {name : Text} {raws : List (Text × Text)} (hr : r.Avoids c)
    (hc : c ∉ introduced) (hraws : ∀ a ∈ raws, c ∉ a.2)
    (h : r.openElement name raws = .ok r') : r'.Avoids c := by
  rw [Reading.openElement] at h
  obtain ⟨r₁, hflush, h⟩ := exists_of_bind_eq_ok h
  have hr₁ := hr.flushBeforeTag hc hflush
  split at h
  · obtain ⟨-, -, h⟩ := exists_of_bind_eq_ok h
    cases h
  · next frame ancestors hcursor =>
    simp only at h
    split at h
    · cases h
    · obtain ⟨⟨r₂, attributes⟩, hd, h⟩ := exists_of_bind_eq_ok h
      obtain ⟨hr₂, ha⟩ := hr₁.decodeAttributes hc (fun _ hm ↦ absurd hm List.not_mem_nil) hraws hd
      cases h
      have hwithin := hr₁.cursor
      rw [hcursor] at hwithin
      cases hwithin with
      | within hf hanc =>
        refine ⟨.within ⟨ha, fun _ hm ↦ absurd hm List.not_mem_nil⟩ fun f hm ↦ ?_, List.not_mem_nil,
          hr₂.entities⟩
        rcases List.mem_cons.mp hm with rfl | hm
        · exact hf
        · exact hanc f hm

theorem Avoids.takeTag (hr : r.Avoids c) (hc : c ∉ introduced) (hs : c ∉ s)
    (h : r.takeTag s = .ok r') :
    r'.Avoids c := by
  have hextra : c ∉ (splitName s).2 := fun hm ↦ hs (splitName_subset s hm)
  have hraws {extra : Text} (he : c ∉ extra) : ∀ a ∈ Attribute.assignments extra, c ∉ a.2 :=
    fun a ha hm ↦ he (Attribute.assignments_subset extra a ha hm)
  have hnone : ∀ a ∈ ([] : List (Text × Text)), c ∉ a.2 := fun _ hm ↦ absurd hm List.not_mem_nil
  have hinit : c ∉ (splitName s).2.dropLast := fun hm ↦ hextra ((List.dropLast_sublist _).subset hm)
  simp only [Reading.takeTag] at h
  split at h
  · cases h
  · split at h
    · split at h
      · exact hr.addElement hc hnone h
      · refine hr.addElement hc ?_ h
        split
        · exact hnone
        · exact hraws hinit
    · refine hr.openElement hc ?_ h
      split
      · exact hnone
      · exact hraws hextra

theorem Avoids.takeMarkup {rest : Text} (hr : r.Avoids c) (hc : c ∉ introduced) (hs : c ∉ s)
    (h : r.takeMarkup s = .ok (r', rest)) : r'.Avoids c ∧ c ∉ rest := by
  rw [Reading.takeMarkup] at h
  split at h
  · split at h
    · cases h
    · next ha =>
      obtain ⟨r₁, hclose, h⟩ := exists_of_map_eq_ok h
      cases h
      exact ⟨hr.closeTag hc hclose, fun hm ↦ hs (Text.after?_subset ha hm)⟩
  · split at h
    · split at h
      · cases h
      · next ha =>
        obtain ⟨r₁, hflush, h⟩ := exists_of_map_eq_ok h
        cases h
        exact ⟨hr.flush hc hflush, fun hm ↦ hs (skipInstruction?_subset ha hm)⟩
    · split at h
      · split at h
        · cases h
        · next ha =>
          cases h
          exact ⟨hr, fun hm ↦ hs (List.drop_subset _ _ (Text.after?_subset ha hm))⟩
      · split at h
        · split at h
          · cases h
          · next ha =>
            cases h
            obtain ⟨he, hrest⟩ := Doctype.read_subset ha
            exact ⟨⟨hr.cursor, hr.pending, fun e hm hv ↦ hs (List.drop_subset _ _ (he e hm hv))⟩,
              fun hm ↦ hs (List.drop_subset _ _ (hrest hm))⟩
        · split at h
          · split at h
            · cases h
            · next ha =>
              obtain ⟨r₁, hadd, h⟩ := exists_of_map_eq_ok h
              cases h
              obtain ⟨hi, hrest⟩ := section?_subset ha
              exact ⟨hr.addSection hc (fun hm ↦ hs (List.drop_subset _ _ (hi hm))) hadd,
                fun hm ↦ hs (List.drop_subset _ _ (hrest hm))⟩
          · split at h
            · cases h
            · next ha =>
              obtain ⟨r₁, htag, h⟩ := exists_of_map_eq_ok h
              cases h
              obtain ⟨hi, hrest⟩ := tag?_subset ha
              refine ⟨hr.takeTag hc (fun hm ↦ ?_) htag, fun hm ↦ hs (hrest hm)⟩
              rcases hi c hm with hm | rfl
              · exact hs hm
              · exact hc (by decide)

theorem Avoids.run (hr : r.Avoids c) (hc : c ∉ introduced) (hs : c ∉ s) (h : r.run s = .ok r') :
    r'.Avoids c := by
  fun_induction Reading.run r s with
  | case1 =>
    cases h
    exact hr
  | case2 => cases h
  | case3 r s r₁ rest hmarkup _ ih =>
    obtain ⟨hr₁, hrest⟩ := hr.takeMarkup hc (fun hm ↦ hs (List.mem_cons_of_mem _ hm)) hmarkup
    exact ih hr₁ hrest h
  | case4 r d s hd _ ih =>
    refine ih ⟨hr.cursor, fun hm ↦ ?_, hr.entities⟩ (fun hm ↦ ?_) h
    · rcases List.mem_append.mp hm with hm | hm
      · exact hr.pending hm
      · rcases List.mem_cons.mp hm with rfl | hm
        · exact hs (List.mem_cons_self ..)
        · exact hs (List.mem_cons_of_mem _ ((List.takeWhile_sublist _).subset hm))
    · exact hs (List.mem_cons_of_mem _ ((List.dropWhile_sublist _).subset hm))

end Reading

/-- The tree of a document avoids what the document avoids. -/
theorem avoids_of_readDocument {s : Text} (hc : c ∉ introduced) (hs : c ∉ s.unifyLines)
    {nodes : List Node} (h : readDocument s = .ok nodes) : ∀ node ∈ nodes, node.Avoids c := by
  obtain ⟨r, hrun, rfl⟩ := exists_of_map_eq_ok h
  have hstart : Reading.Avoids c {} :=
    ⟨.within ⟨fun _ hm ↦ absurd hm List.not_mem_nil, fun _ hm ↦ absurd hm List.not_mem_nil⟩
      fun _ hm ↦ absurd hm List.not_mem_nil, List.not_mem_nil, fun _ hm ↦
        absurd hm List.not_mem_nil⟩
  exact (hstart.run hc hs hrun).cursor.children

end Markup
end AnalysisProject
