import AnalysisProject.Markup.Reference
import AnalysisProject.Proofs.Text.Replacement

namespace AnalysisProject.Markup

open CodeUnit Text

/-- `e` answers `a` while `count` is within the limit, and complains about a count beyond the limit
otherwise. -/
def Metered {ε α : Type} (excess : Nat → ε) (count : Nat) (e : Except ε α) (a : α) : Prop :=
  (count ≤ Expansion.maxCount → e = .ok a) ∧
    (Expansion.maxCount < count → ∃ n, Expansion.maxCount < n ∧ e = .error (excess n))

namespace Metered

variable {ε α β : Type} {excess : Nat → ε} {m n : Nat}

theorem ok (a : α) (h : n ≤ Expansion.maxCount) : Metered excess n (.ok a) a :=
  ⟨fun _ ↦ rfl, fun hn ↦ absurd h (Nat.not_le.mpr hn)⟩

theorem bind {e : Except ε α} {a : α} {f : α → Except ε β} {b : β} (h : Metered excess m e a)
    (hmn : m ≤ n) (hf : m ≤ Expansion.maxCount → Metered excess n (f a) b) :
    Metered excess n (e >>= f) b := by
  constructor
  · intro hn
    have hm := Nat.le_trans hmn hn
    rw [h.1 hm]
    exact (hf hm).1 hn
  · intro hn
    by_cases hm : m ≤ Expansion.maxCount
    · rw [h.1 hm]
      exact (hf hm).2 hn
    · obtain ⟨k, hk, he⟩ := h.2 (Nat.not_le.mp hm)
      exact ⟨k, hk, by rw [he]; rfl⟩

theorem map {e : Except ε α} {a : α} (h : Metered excess n e a) (f : α → β) :
    Metered excess n (e.map f) (f a) := by
  constructor
  · intro hn
    rw [h.1 hn]
    rfl
  · intro hn
    obtain ⟨k, hk, he⟩ := h.2 hn
    exact ⟨k, hk, by rw [he]; rfl⟩

end Metered

namespace Expansion

def charge (x : Expansion) (n : Nat) : Expansion := { x with count := x.count + n }

@[simp] theorem charge_charge (x : Expansion) (m n : Nat) :
    (x.charge m).charge n = x.charge (m + n) := by
  simp only [charge, Nat.add_assoc]

@[simp] theorem count_charge (x : Expansion) (n : Nat) : (x.charge n).count = x.count + n := rfl

theorem tally_metered (x : Expansion) (n : Nat) (hx : x.count ≤ maxCount) :
    Metered .tooMany (x.count + n) (x.tally n) (x.charge n) := by
  by_cases h₀ : n = 0
  · subst h₀
    exact .ok x hx
  constructor
  · intro h
    rw [tally, if_neg h₀, if_neg (Nat.not_lt.mpr h)]
    rfl
  · intro h
    exact ⟨x.count + n, h, by rw [tally, if_neg h₀, if_pos h]⟩

end Expansion

namespace Reference

def groups : List (List Text × CodeUnit) := predefined ++ [(ampersandForms, ampersand)]

def counted : List Text := predefined.flatMap Prod.fst

def isCounted (c : CodeUnit) : Bool := (predefined.map Prod.snd).contains c

def weight (s : Text) : Nat := s.countP isCounted

def spelling (plain : List CodeUnit) (c : CodeUnit) : Text :=
  if c ∈ plain then [c] else (written.lookup c).getD [c]

/-- Units of which some, but no ampersand, may stand for themselves. The flag says that a unit is
written by its reference, if it has one and is not in `plain`. -/
def spellAll (plain : List CodeUnit) (units : List (CodeUnit × Bool)) : Text :=
  units.flatMap fun (c, byReference) ↦ if byReference then spelling plain c else [c]

def referred (units : List (CodeUnit × Bool)) : Text := (units.filter Prod.snd).map Prod.fst

theorem spelling_cases {plain : List CodeUnit} (hp : ampersand ∉ plain) (c : CodeUnit) :
    c ≠ ampersand ∧ spelling plain c = [c] ∧ (c ∈ plain ∨ written.lookup c = none) ∨
      c ∉ plain ∧ (c, spelling plain c) ∈ written := by
  by_cases hc : c ∈ plain
  · exact .inl ⟨fun h ↦ hp (h ▸ hc), if_pos hc, .inl hc⟩
  · rw [spelling, if_neg hc]
    cases hl : written.lookup c with
    | none =>
      refine .inl ⟨?_, rfl, .inr rfl⟩
      rintro rfl
      cases hl
    | some reference =>
      obtain ⟨l₁, l₂, h, -⟩ := List.lookup_eq_some_iff.mp hl
      exact .inr ⟨hc, by simp [h]⟩

theorem eq_cons_of_mem_written {c : CodeUnit} {reference : Text} (h : (c, reference) ∈ written) :
    ∃ s, reference = ampersand :: s ∧ ampersand ∉ s := by
  simp only [written, List.mem_cons, Prod.mk.injEq, List.not_mem_nil, or_false] at h
  rcases h with ⟨-, rfl⟩ | ⟨-, rfl⟩ | ⟨-, rfl⟩ | ⟨-, rfl⟩ | ⟨-, rfl⟩
  all_goals exact ⟨_, rfl, by decide⟩

theorem beginWith_of_mem_groups : ∀ g ∈ groups, BeginWith ampersand g.1 := by decide

theorem beginWith_counted : BeginWith ampersand counted := by decide

theorem formAt?_written {forms : List Text} {c d : CodeUnit} {reference : Text}
    (hg : (forms, c) ∈ groups) (hw : (d, reference) ∈ written) (rest : Text) :
    formAt? forms (reference ++ rest) = if d = c then some reference else none := by
  simp only [groups, predefined, List.cons_append, List.nil_append, List.mem_cons, Prod.mk.injEq,
    List.not_mem_nil, or_false] at hg
  simp only [written, List.mem_cons, Prod.mk.injEq, List.not_mem_nil, or_false] at hw
  rcases hg with ⟨rfl, rfl⟩ | ⟨rfl, rfl⟩ | ⟨rfl, rfl⟩ | ⟨rfl, rfl⟩ | ⟨rfl, rfl⟩ <;>
    rcases hw with ⟨rfl, rfl⟩ | ⟨rfl, rfl⟩ | ⟨rfl, rfl⟩ | ⟨rfl, rfl⟩ | ⟨rfl, rfl⟩ <;> rfl

theorem formAt?_counted_written {d : CodeUnit} {reference : Text} (hw : (d, reference) ∈ written)
    (rest : Text) :
    formAt? counted (reference ++ rest) = if isCounted d then some reference else none := by
  simp only [written, List.mem_cons, Prod.mk.injEq, List.not_mem_nil, or_false] at hw
  rcases hw with ⟨rfl, rfl⟩ | ⟨rfl, rfl⟩ | ⟨rfl, rfl⟩ | ⟨rfl, rfl⟩ | ⟨rfl, rfl⟩ <;> rfl

/-- Escaping one character after the other, the ampersand first, comes to the same as escaping all
at once. -/
theorem escape_eq_flatMap (s : Text) : escape s = s.flatMap (spelling []) := by
  simp only [escape, written, List.foldl_cons, List.foldl_nil, replaceUnit, List.flatMap_assoc]
  refine congrArg (List.flatMap · s) (funext fun c ↦ ?_)
  by_cases h₁ : c = ampersand
  · subst h₁; rfl
  by_cases h₂ : c = greater
  · subst h₂; rfl
  by_cases h₃ : c = less
  · subst h₃; rfl
  by_cases h₄ : c = apostrophe
  · subst h₄; rfl
  by_cases h₅ : c = quote
  · subst h₅; rfl
  have hl : written.lookup c = none := by
    simp only [written, List.lookup_cons, List.lookup_nil, beq_eq_false_iff_ne.mpr h₁,
      beq_eq_false_iff_ne.mpr h₂, beq_eq_false_iff_ne.mpr h₃, beq_eq_false_iff_ne.mpr h₄,
      beq_eq_false_iff_ne.mpr h₅]
  simp only [if_neg h₁, if_neg h₂, if_neg h₃, if_neg h₄, if_neg h₅, List.flatMap_cons,
    List.flatMap_nil, List.append_nil, spelling, List.not_mem_nil, if_false, hl, Option.getD_none]

theorem eq_nil_of_mem_written {c : CodeUnit} {reference : Text} (h : (c, reference) ∈ written) :
    reference ≠ [] := by
  obtain ⟨s, rfl, -⟩ := eq_cons_of_mem_written h
  exact List.cons_ne_nil _ _

theorem replaceAll_written {forms : List Text} (value : Text) (hb : BeginWith ampersand forms)
    {d : CodeUnit} {reference rest : Text} (hw : (d, reference) ∈ written)
    (hf : formAt? forms (reference ++ rest) = none) :
    replaceAll forms value (reference ++ rest) = reference ++ replaceAll forms value rest := by
  obtain ⟨s, rfl, hs⟩ := eq_cons_of_mem_written hw
  rw [List.cons_append] at hf
  rw [List.cons_append, replaceAll_cons hf, hb.replaceAll_append hs, List.cons_append]

theorem countAll_written {forms : List Text} (hb : BeginWith ampersand forms) {d : CodeUnit}
    {reference rest : Text} (hw : (d, reference) ∈ written)
    (hf : formAt? forms (reference ++ rest) = none) :
    countAll forms (reference ++ rest) = countAll forms rest := by
  obtain ⟨s, rfl, hs⟩ := eq_cons_of_mem_written hw
  rw [List.cons_append] at hf
  rw [List.cons_append, countAll_cons hf, hb.countAll_append hs]

section Step

variable {forms : List Text} {c : CodeUnit} {plain : List CodeUnit}

theorem replaceAll_spelling (hg : (forms, c) ∈ groups) (hp : ampersand ∉ plain) (d : CodeUnit)
    (rest : Text) :
    replaceAll forms [c] (spelling plain d ++ rest) = spelling (c :: plain) d ++
      replaceAll forms [c] rest := by
  rcases spelling_cases hp d with ⟨hd, hs, hl⟩ | ⟨hd, hw⟩
  · have h : spelling (c :: plain) d = [d] := by
      rcases hl with hl | hl <;> simp [spelling, hl]
    rw [hs, h]
    exact (beginWith_of_mem_groups _ hg).replaceAll_append (by simpa using Ne.symm hd) rest
  -- A written reference is one of its own group and of no other.
  · by_cases hc : d = c
    · subst hc
      have hf := formAt?_written hg hw rest
      rw [if_pos rfl] at hf
      rw [replaceAll_form_append hf (eq_nil_of_mem_written hw), spelling,
        if_pos (List.mem_cons_self ..)]
    · have hf := formAt?_written hg hw rest
      rw [if_neg hc] at hf
      rw [replaceAll_written [c] (beginWith_of_mem_groups _ hg) hw hf, spelling,
        spelling, if_neg hd, if_neg (by simp [hc, hd])]

theorem countAll_spelling (hg : (forms, c) ∈ groups) (hp : ampersand ∉ plain) (hc : c ∉ plain)
    (d : CodeUnit) (rest : Text) :
    countAll forms (spelling plain d ++ rest) = (if d = c then 1 else 0) + countAll forms rest := by
  rcases spelling_cases hp d with ⟨hd, hs, hl⟩ | ⟨hd, hw⟩
  · have h : d ≠ c := by
      rintro rfl
      rcases hl with hl | hl
      · exact hc hl
      · simp only [groups, predefined, List.cons_append, List.nil_append, List.mem_cons,
          Prod.mk.injEq, List.not_mem_nil, or_false] at hg
        rcases hg with ⟨-, rfl⟩ | ⟨-, rfl⟩ | ⟨-, rfl⟩ | ⟨-, rfl⟩ | ⟨-, rfl⟩ <;> cases hl
    rw [hs, if_neg h, (beginWith_of_mem_groups _ hg).countAll_append (by simpa using Ne.symm hd),
      Nat.zero_add]
  · by_cases hc : d = c
    · subst hc
      have hf := formAt?_written hg hw rest
      rw [if_pos rfl] at hf
      rw [countAll_form_append hf (eq_nil_of_mem_written hw), if_pos rfl, Nat.add_comm]
    · have hf := formAt?_written hg hw rest
      rw [if_neg hc] at hf
      rw [countAll_written (beginWith_of_mem_groups _ hg) hw hf, if_neg hc, Nat.zero_add]

variable {units : List (CodeUnit × Bool)} (hu : ∀ u ∈ units, u.2 = false → u.1 ≠ ampersand)

include hu

theorem replaceAll_spellAll (hg : (forms, c) ∈ groups) (hp : ampersand ∉ plain) :
    replaceAll forms [c] (spellAll plain units) = spellAll (c :: plain) units := by
  simp only [spellAll]
  induction units with
  | nil => rfl
  | cons u units ih =>
    obtain ⟨d, byReference⟩ := u
    have hd := hu _ (List.mem_cons_self ..)
    have hmore := ih fun u hm ↦ hu u (List.mem_cons_of_mem _ hm)
    rw [List.flatMap_cons, List.flatMap_cons]
    cases byReference with
    | true =>
      rw [if_pos rfl, if_pos rfl, replaceAll_spelling hg hp, hmore]
    | false =>
      have hne : ampersand ∉ [d] := by simpa using Ne.symm (hd rfl)
      rw [if_neg Bool.false_ne_true, if_neg Bool.false_ne_true,
        (beginWith_of_mem_groups _ hg).replaceAll_append hne, hmore]

theorem countAll_spellAll (hg : (forms, c) ∈ groups) (hp : ampersand ∉ plain) (hc : c ∉ plain) :
    countAll forms (spellAll plain units) = (referred units).count c := by
  simp only [spellAll, referred]
  induction units with
  | nil => rfl
  | cons u units ih =>
    obtain ⟨d, byReference⟩ := u
    have hd := hu _ (List.mem_cons_self ..)
    have hmore := ih fun u hm ↦ hu u (List.mem_cons_of_mem _ hm)
    rw [List.flatMap_cons]
    cases byReference with
    | true =>
      rw [if_pos rfl, countAll_spelling hg hp hc, hmore, List.filter_cons_of_pos rfl, List.map_cons,
        List.count_cons, Nat.add_comm]
      simp only [beq_iff_eq]
    | false =>
      have hne : ampersand ∉ [d] := by simpa using Ne.symm (hd rfl)
      rw [if_neg Bool.false_ne_true, (beginWith_of_mem_groups _ hg).countAll_append hne, hmore,
        List.filter_cons_of_neg Bool.false_ne_true]

end Step

theorem isCounted_eq_false_of_lookup {c : CodeUnit} (h : written.lookup c = none) :
    isCounted c = false := by
  refine Bool.eq_false_iff.mpr fun hc ↦ ?_
  rw [isCounted, List.contains_iff_mem] at hc
  simp only [predefined, List.map_cons, List.map_nil, List.mem_cons, List.not_mem_nil,
    or_false] at hc
  rcases hc with rfl | rfl | rfl | rfl <;> cases h

theorem isCounted_eq_false_of_mem_written {c d : CodeUnit} {reference : Text}
    (h : (c, reference) ∈ written) (hd : d ∈ reference) : isCounted d = false := by
  have hall : ∀ w ∈ written, ∀ d ∈ w.2, isCounted d = false := by decide
  exact hall _ h d hd

theorem not_mem_escape {c : CodeUnit} (hc : isCounted c = true) (s : Text) : c ∉ escape s := by
  rw [escape_eq_flatMap, List.mem_flatMap]
  rintro ⟨d, -, hd⟩
  rcases spelling_cases (List.not_mem_nil (a := ampersand)) d with ⟨-, hs, hl⟩ | ⟨-, hw⟩
  · rw [hs, List.mem_singleton] at hd
    rw [hd, isCounted_eq_false_of_lookup (hl.resolve_left List.not_mem_nil)] at hc
    cases hc
  · rw [isCounted_eq_false_of_mem_written hw hd] at hc
    cases hc

theorem escape_eq_nil_iff {s : Text} : escape s = [] ↔ s = [] := by
  constructor
  · intro h
    cases s with
    | nil => rfl
    | cons c s =>
      rw [escape_eq_flatMap, List.flatMap_cons, List.append_eq_nil_iff] at h
      rcases spelling_cases (List.not_mem_nil (a := ampersand)) c with ⟨-, hs, -⟩ | ⟨-, hw⟩
      · rw [hs] at h
        exact absurd h.1 (List.cons_ne_nil _ _)
      · exact absurd h.1 (eq_nil_of_mem_written hw)
  · rintro rfl
    rfl

theorem countAll_counted_escape_append (s rest : Text) :
    countAll counted (escape s ++ rest) = weight s + countAll counted rest := by
  rw [escape_eq_flatMap, weight]
  induction s with
  | nil => simp
  | cons d s ih =>
    rw [List.flatMap_cons, List.append_assoc, List.countP_cons]
    rcases spelling_cases (List.not_mem_nil (a := ampersand)) d with ⟨hd, hs, hl⟩ | ⟨-, hw⟩
    · have h : isCounted d = false := by
        rcases hl with hl | hl
        · cases hl
        · exact isCounted_eq_false_of_lookup hl
      rw [hs, beginWith_counted.countAll_append (by simpa using Ne.symm hd), ih, h]
      rfl
    · have hf := formAt?_counted_written hw (s.flatMap (spelling []) ++ rest)
      cases h : isCounted d with
      | true =>
        rw [h, if_pos rfl] at hf
        rw [countAll_form_append hf (eq_nil_of_mem_written hw), ih, if_pos rfl]
        omega
      | false =>
        rw [h, if_neg Bool.false_ne_true] at hf
        rw [countAll_written beginWith_counted hw hf, ih]
        rfl

theorem spelling_eq_singleton (c : CodeUnit) :
    spelling (ampersand :: ((predefined.map Prod.snd).reverse ++ [])) c = [c] := by
  by_cases hc : c ∈ ampersand :: ((predefined.map Prod.snd).reverse ++ [])
  · exact if_pos hc
  · rw [spelling, if_neg hc]
    cases hl : written.lookup c with
    | none => rfl
    | some reference =>
      obtain ⟨l₁, l₂, h, -⟩ := List.lookup_eq_some_iff.mp hl
      have hm : c ∈ written.map Prod.fst := by simp [h]
      exact absurd (List.Perm.mem_iff (by decide) |>.mp hm) hc

theorem spellAll_of_not_mem {units : List (CodeUnit × Bool)} (h : ampersand ∉ spellAll [] units) :
    spellAll [] units = units.map Prod.fst ∧ weight (referred units) = 0 := by
  simp only [spellAll] at h ⊢
  rw [weight, referred]
  induction units with
  | nil => exact ⟨rfl, rfl⟩
  | cons u units ih =>
    obtain ⟨c, byReference⟩ := u
    rw [List.flatMap_cons, List.mem_append, not_or] at h
    obtain ⟨he, hw⟩ := ih h.2
    rw [List.flatMap_cons, List.map_cons, he]
    cases byReference with
    | false => exact ⟨rfl, hw⟩
    | true =>
      rw [List.filter_cons_of_pos rfl, List.map_cons, List.countP_cons, hw]
      rcases spelling_cases (List.not_mem_nil (a := ampersand)) c with ⟨-, hs, hl⟩ | ⟨-, hm⟩
      · rw [if_pos rfl, hs, isCounted_eq_false_of_lookup (hl.resolve_left List.not_mem_nil)]
        exact ⟨rfl, rfl⟩
      · obtain ⟨t, ht, -⟩ := eq_cons_of_mem_written hm
        rw [if_pos rfl, ht] at h
        exact absurd (List.mem_cons_self ..) h.1

theorem escape_eq_spellAll (s : Text) : escape s = spellAll [] (s.map fun c ↦ (c, true)) := by
  rw [escape_eq_flatMap, spellAll, List.flatMap_map]
  rfl

theorem referred_map (s : Text) : referred (s.map fun c ↦ (c, true)) = s := by
  have hfilter : (s.map fun c ↦ (c, true)).filter Prod.snd = s.map fun c ↦ (c, true) := by
    refine List.filter_eq_self.mpr fun u hm ↦ ?_
    obtain ⟨c, -, rfl⟩ := List.mem_map.mp hm
    rfl
  rw [referred, hfilter, List.map_map]
  exact List.map_id' s

theorem escape_of_not_mem {s : Text} (h : ampersand ∉ escape s) : escape s = s ∧ weight s = 0 := by
  rw [escape_eq_spellAll] at h ⊢
  have hs := spellAll_of_not_mem h
  rw [referred_map, List.map_map] at hs
  exact ⟨hs.1.trans (List.map_id' s), hs.2⟩

theorem foldl_replaceAll_shown {shown : List CodeUnit → Text}
    (hreplace : ∀ {forms c plain}, (forms, c) ∈ groups → ampersand ∉ plain →
      replaceAll forms [c] (shown plain) = shown (c :: plain))
    {gs : List (List Text × CodeUnit)} (hg : ∀ g ∈ gs, g ∈ groups)
    (ha : ampersand ∉ gs.map Prod.snd) {plain : List CodeUnit} (hp : ampersand ∉ plain) :
    gs.foldl (fun t g ↦ replaceAll g.1 [g.2] t) (shown plain) =
      shown ((gs.map Prod.snd).reverse ++ plain) := by
  induction gs generalizing plain with
  | nil => rfl
  | cons g gs ih =>
    rw [List.map_cons, List.mem_cons, not_or] at ha
    have hplain : ampersand ∉ g.2 :: plain := by simp [ha.1, hp]
    rw [List.foldl_cons, hreplace (hg g (List.mem_cons_self ..)) hp,
      ih (fun g hm ↦ hg g (List.mem_cons_of_mem _ hm)) ha.2 hplain, List.map_cons,
      List.reverse_cons, List.append_assoc]
    rfl

theorem foldl_groups_shown (shown : List CodeUnit → Text)
    (hreplace : ∀ {forms c plain}, (forms, c) ∈ groups → ampersand ∉ plain →
      replaceAll forms [c] (shown plain) = shown (c :: plain)) :
    groups.foldl (fun t g ↦ replaceAll g.1 [g.2] t) (shown []) =
      shown (ampersand :: ((predefined.map Prod.snd).reverse ++ [])) := by
  rw [groups, List.foldl_append,
    foldl_replaceAll_shown hreplace (fun g hm ↦ List.mem_append_left _ hm) (by decide)
      List.not_mem_nil,
    List.foldl_cons, List.foldl_nil, hreplace (by decide) (by decide)]

theorem foldl_replaceAll_escape (s : Text) :
    groups.foldl (fun t g ↦ replaceAll g.1 [g.2] t) (escape s) = s := by
  have hu : ∀ u ∈ s.map fun c ↦ (c, true), u.2 = false → u.1 ≠ ampersand := by
    intro u hm hf
    obtain ⟨c, -, rfl⟩ := List.mem_map.mp hm
    cases hf
  have hself : spellAll (ampersand :: ((predefined.map Prod.snd).reverse ++ [])) (s.map fun c ↦
      (c, true)) = s := by
    simp only [spellAll, spelling_eq_singleton, ite_self, List.flatMap_map]
    exact List.flatMap_singleton' s
  rw [escape_eq_spellAll]
  exact (foldl_groups_shown (spellAll · _) (replaceAll_spellAll hu)).trans hself

theorem escape_injective {s t : Text} (h : escape s = escape t) : s = t := by
  rw [← foldl_replaceAll_escape s, h, foldl_replaceAll_escape]

end Reference

namespace Expansion

open Reference

theorem countP_contains_cons {c : CodeUnit} {cs : List CodeUnit} (h : c ∉ cs) (s : Text) :
    s.countP (c :: cs).contains = s.count c + s.countP cs.contains := by
  induction s with
  | nil => rfl
  | cons d s ih =>
    rw [List.countP_cons, List.countP_cons, List.count_cons, ih, List.contains_cons]
    by_cases hd : d = c
    · subst hd
      simp [h]
      omega
    · simp only [beq_eq_false_iff_ne.mpr hd, Bool.false_or, Bool.false_eq_true, if_false]
      omega

/-- A text with references in it, of which those to the characters in `plain` have been put in
already. The references are to the characters in `read`. -/
structure Peels (shown : List CodeUnit → Text) (read : Text) : Prop where
  replace {forms : List Text} {c : CodeUnit} {plain : List CodeUnit} (hg : (forms, c) ∈ groups)
    (hp : ampersand ∉ plain) : replaceAll forms [c] (shown plain) = shown (c :: plain)
  count {forms : List Text} {c : CodeUnit} {plain : List CodeUnit} (hg : (forms, c) ∈ groups)
    (hp : ampersand ∉ plain) (hc : c ∉ plain) : countAll forms (shown plain) = read.count c
  weight_eq_zero (h : ampersand ∉ shown []) : weight read = 0
  shown_eq (h : ampersand ∉ shown []) :
    shown (ampersand :: ((predefined.map Prod.snd).reverse ++ [])) = shown []

section

variable {shown : List CodeUnit → Text} {read : Text}

theorem Peels.decodePredefined_metered (h : Peels shown read) {gs : List (List Text × CodeUnit)}
    (hg : ∀ g ∈ gs, g ∈ groups) {plain : List CodeUnit}
    (hn : (ampersand :: (gs.map Prod.snd ++ plain)).Nodup) (x : Expansion)
    (hx : x.count ≤ maxCount) :
    Metered .tooMany (x.count + read.countP (gs.map Prod.snd).contains)
      (x.decodePredefined gs (shown plain))
      (x.charge (read.countP (gs.map Prod.snd).contains),
        shown ((gs.map Prod.snd).reverse ++ plain)) := by
  -- The characters of the groups that are done stand for themselves, whereas the others are still
  -- written as references.
  induction gs generalizing plain x with
  | nil =>
    have hnone : read.countP (([] : List (List Text × CodeUnit)).map Prod.snd).contains = 0 := by
      simp
    rw [hnone]
    exact .ok _ hx
  | cons g gs ih =>
    obtain ⟨forms, c⟩ := g
    have hforms : (forms, c) ∈ groups := hg _ (List.mem_cons_self ..)
    simp only [List.map_cons, List.cons_append, List.nodup_cons, List.mem_cons, List.mem_append,
      not_or] at hn
    obtain ⟨⟨hca, hag, hap⟩, ⟨hcg, hcp⟩, hn⟩ := hn
    have hcount := countP_contains_cons hcg read
    rw [decodePredefined, h.count hforms hap hcp, h.replace hforms hap, List.map_cons, hcount]
    refine (tally_metered x (read.count c) hx).bind (by omega) fun hm ↦ ?_
    have hn' : (ampersand :: (gs.map Prod.snd ++ c :: plain)).Nodup := by
      have hperm : (gs.map Prod.snd ++ c :: plain).Perm (c :: (gs.map Prod.snd ++ plain)) :=
        List.perm_middle
      rw [List.nodup_cons, hperm.nodup_iff, hperm.mem_iff]
      simp [hca, hag, hap, hcg, hcp, hn]
    have hmore := ih (fun g h ↦ hg g (List.mem_cons_of_mem _ h)) hn' (x.charge (read.count c)) hm
    rw [charge_charge, count_charge, Nat.add_assoc] at hmore
    simpa only [List.reverse_cons, List.append_assoc, List.cons_append, List.nil_append] using hmore

theorem Peels.decode_metered (h : Peels shown read) (x : Expansion) (hx : x.count ≤ maxCount) :
    Metered .tooMany (x.count + weight read) (x.decode [] (shown []))
      (x.charge (weight read), shown (ampersand :: ((predefined.map Prod.snd).reverse ++ []))) := by
  by_cases ha : ampersand ∈ shown []
  · have hc : (!List.contains (shown []) ampersand) = false := by simpa using ha
    have hd : x.decode [] (shown []) = x.decodePredefined predefined (shown []) >>= fun p ↦
        .ok (p.1, Text.replaceAll ampersandForms [ampersand] p.2) := by
      simp only [decode, decodeDeclared, bind, Except.bind, hc, Bool.false_eq_true, if_false]
      rfl
    rw [hd]
    refine (h.decodePredefined_metered (fun g hg ↦ List.mem_append_left _ hg) (by decide) x hx).bind
      (Nat.le_refl _)
      fun hm ↦ ?_
    -- The ampersand comes last and does not count.
    rw [h.replace (by decide) (by decide)]
    exact .ok _ hm
  · have hc : (!List.contains (shown []) ampersand) = true := by simpa using ha
    rw [decode, if_pos hc, h.weight_eq_zero ha, h.shown_eq ha]
    exact .ok _ hx

end

/-- Decoding gives the units back, as long as not too many characters have been put in. -/
theorem decode_spellAll (x : Expansion) (hx : x.count ≤ maxCount) {units : List (CodeUnit × Bool)}
    (hu : ∀ u ∈ units, u.2 = false → u.1 ≠ ampersand) :
    Metered .tooMany (x.count + weight (referred units)) (x.decode [] (spellAll [] units))
      (x.charge (weight (referred units)), units.map Prod.fst) := by
  have hself : spellAll (ampersand :: ((predefined.map Prod.snd).reverse ++ [])) units =
      units.map Prod.fst := by
    simp only [spellAll, spelling_eq_singleton, ite_self]
    exact List.map_eq_flatMap.symm
  have hpeels : Peels (spellAll · units) (referred units) :=
    { replace := replaceAll_spellAll hu
      count := countAll_spellAll hu
      weight_eq_zero := fun h ↦ (spellAll_of_not_mem h).2
      shown_eq := fun h ↦ hself.trans (spellAll_of_not_mem h).1.symm }
  have hd := hpeels.decode_metered x hx
  rwa [hself] at hd

theorem decode_escape (x : Expansion) (hx : x.count ≤ maxCount) (s : Text) :
    Metered .tooMany (x.count + weight s) (x.decode [] (escape s)) (x.charge (weight s), s) := by
  have hu : ∀ u ∈ s.map fun c ↦ (c, true), u.2 = false → u.1 ≠ ampersand := by
    intro u hm hf
    obtain ⟨c, -, rfl⟩ := List.mem_map.mp hm
    cases hf
  have hd := decode_spellAll x hx hu
  rw [referred_map, List.map_map] at hd
  rw [escape_eq_spellAll]
  simpa only [Function.comp_def, List.map_id'] using hd

end Expansion
end AnalysisProject.Markup
