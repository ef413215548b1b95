import AnalysisProject.Proofs.Markup.Escaping

namespace AnalysisProject.Markup

open CodeUnit Text

namespace Reference

/-- A place of a text: a unit that stands for itself, or a reference and its character. -/
inductive Place
  | unit (c : CodeUnit)
  | reference (form : Text) (c : CodeUnit)

namespace Place

def source : Place → Text
  | unit c => [c]
  | reference form _ => form

def value : Place → CodeUnit
  | unit c | reference _ c => c

def referred? : Place → Option CodeUnit
  | unit _ => none
  | reference _ c => some c

/-- What stands there when the characters in `plain` have been put in. -/
def shown (plain : List CodeUnit) : Place → Text
  | unit c => [c]
  | reference form c => if c ∈ plain then [c] else form

end Place

def table : List (Text × CodeUnit) := groups.flatMap fun (forms, c) ↦ forms.map (·, c)

def front? (s : Text) : Option (Text × CodeUnit) := table.find? fun entry ↦ startsWith entry.1 s

def placesFrom : Nat → Text → List Place
  | _, [] => []
  | n + 1, _ :: s => placesFrom n s
  | 0, c :: s =>
    match front? (c :: s) with
    | some (form, d) => .reference form d :: placesFrom (form.length - 1) s
    | none => .unit c :: placesFrom 0 s

def places (s : Text) : List Place := placesFrom 0 s

def resolve (s : Text) : Text := (places s).map Place.value

def referredIn (s : Text) : Text := (places s).filterMap Place.referred?

/-- Places that have been cut where they can be: no reference begins at a unit that stands for
itself. -/
inductive IsCut : List Place → Prop
  | nil : IsCut []
  | unit {c : CodeUnit} {ps : List Place} :
      front? (c :: ps.flatMap Place.source) = none → IsCut ps → IsCut (.unit c :: ps)
  | reference {form : Text} {c : CodeUnit} {ps : List Place} :
      (form, c) ∈ table → IsCut ps → IsCut (.reference form c :: ps)

theorem placesFrom_eq_drop (n : Nat) (s : Text) : placesFrom n s = places (s.drop n) := by
  induction s generalizing n with
  | nil => simp [places, placesFrom]
  | cons c s ih =>
    cases n with
    | zero => rfl
    | succ n => simpa only [placesFrom, List.drop_succ_cons] using ih n

theorem ne_nil_of_mem_table : ∀ entry ∈ table, entry.1 ≠ [] := by decide

theorem isCut_places (s : Text) : IsCut (places s) ∧ (places s).flatMap Place.source = s := by
  -- A reference is passed as a whole, so the induction is on the length.
  induction hn : s.length using Nat.strongRecOn generalizing s with
  | ind n ih =>
    cases s with
    | nil => exact ⟨.nil, rfl⟩
    | cons c s =>
      cases hf : front? (c :: s) with
      | none =>
        obtain ⟨hcut, hsource⟩ := ih s.length (by rw [← hn]; simp) s rfl
        have hplaces : places (c :: s) = .unit c :: places s := by rw [places, placesFrom, hf]; rfl
        rw [hplaces]
        refine ⟨.unit (by rwa [hsource]) hcut, ?_⟩
        rw [List.flatMap_cons, hsource]
        rfl
      | some entry =>
        obtain ⟨form, d⟩ := entry
        have hmem : (form, d) ∈ table := List.mem_of_find?_eq_some hf
        have hstart := List.find?_some hf
        obtain ⟨rest, hrest⟩ := List.isPrefixOf_iff_prefix.mp hstart
        obtain ⟨e, t, ht, hd⟩ := drop_length_pred_cons form rest (ne_nil_of_mem_table _ hmem)
        obtain ⟨rfl, rfl⟩ : e = c ∧ t = s := by simpa [hrest] using ht.symm
        have hlength : rest.length < n := by
          have hpos := List.length_pos_iff.mpr (ne_nil_of_mem_table _ hmem)
          rw [← hn, ← hrest, List.length_append]
          omega
        obtain ⟨hcut, hsource⟩ := ih rest.length hlength rest rfl
        have hplaces : places (e :: t) = .reference form d :: places rest := by
          rw [places, placesFrom, hf]
          simp only [placesFrom_eq_drop, hd]
        rw [hplaces]
        refine ⟨.reference hmem hcut, ?_⟩
        rw [List.flatMap_cons, hsource, ← hrest]
        rfl

/-- After its ampersand, no reference holds a character that a reference stands for. -/
theorem exists_tail :
    ∀ entry ∈ table, ∃ tail, entry.1 = ampersand :: tail ∧ ∀ v ∈ groups.map Prod.snd, v ∉ tail := by
  have hall : ∀ entry ∈ table, entry.1.head? = some ampersand ∧ ∀ v ∈ groups.map Prod.snd,
    v ∉ entry.1.tail := by decide
  intro entry he
  obtain ⟨hhead, htail⟩ := hall entry he
  obtain ⟨tail, ht⟩ := List.head?_eq_some_iff.mp hhead
  exact ⟨tail, ht, by simpa only [ht, List.tail_cons] using htail⟩

theorem ampersand_mem_values : ampersand ∈ groups.map Prod.snd := by decide

theorem value_mem_values : ∀ entry ∈ table, entry.2 ∈ groups.map Prod.snd := by decide

theorem eq_of_begins : ∀ entry ∈ table, ∀ other ∈ table, entry.1 <+: other.1 →
    entry.1 = other.1 := by decide

theorem mem_table_of_mem_groups : ∀ g ∈ groups, ∀ form ∈ g.1, (form, g.2) ∈ table := by decide

theorem mem_forms_iff : ∀ g ∈ groups, ∀ entry ∈ table, entry.1 ∈ g.1 ↔ entry.2 = g.2 := by decide

theorem startsWith_reference {entry other : Text × CodeUnit} (he : entry ∈ table)
    (ho : other ∈ table) (rest : Text) :
    startsWith entry.1 (other.1 ++ rest) = decide (entry.1 = other.1) := by
  rw [Bool.eq_iff_iff, decide_eq_true_eq, startsWith, List.isPrefixOf_iff_prefix]
  constructor
  · intro h
    have hother : other.1 <+: other.1 ++ rest := List.prefix_append _ _
    rcases Nat.le_total entry.1.length other.1.length with hl | hl
    · exact eq_of_begins _ he _ ho (List.prefix_of_prefix_length_le h hother hl)
    · exact (eq_of_begins _ ho _ he (List.prefix_of_prefix_length_le hother h hl)).symm
  · intro h
    rw [h]
    exact List.prefix_append _ _

section Group

variable {forms : List Text} {c : CodeUnit} (hg : (forms, c) ∈ groups)

include hg

theorem formAt?_reference {form : Text} {d : CodeUnit} (he : (form, d) ∈ table) (rest : Text) :
    formAt? forms (form ++ rest) = if d = c then some form else none := by
  have hstart : ∀ other ∈ forms, startsWith other (form ++ rest) = decide (other = form) :=
    fun other ho ↦ startsWith_reference (mem_table_of_mem_groups _ hg other ho) he rest
  have hmem := mem_forms_iff _ hg _ he
  simp only at hmem
  by_cases hd : d = c
  · rw [if_pos hd]
    have hself := (hstart form (hmem.mpr hd)).trans (decide_eq_true rfl)
    cases hfind : formAt? forms (form ++ rest) with
    | none => exact absurd hself (List.find?_eq_none.mp hfind form (hmem.mpr hd))
    | some other =>
      have hother := List.find?_some hfind
      rw [hstart other (List.mem_of_find?_eq_some hfind), decide_eq_true_eq] at hother
      rw [hother]
  · rw [if_neg hd]
    refine List.find?_eq_none.mpr fun other ho hs ↦ ?_
    rw [hstart other ho, decide_eq_true_eq] at hs
    exact hd (hmem.mp (hs ▸ ho))

variable {ps : List Place}

omit hg in
/-- Characters that have been put in do not complete a reference. -/
theorem IsCut.startsWith_shown (h : IsCut ps) {tail : Text}
    (ht : ∀ v ∈ groups.map Prod.snd, v ∉ tail) (plain : List CodeUnit) :
    startsWith tail (ps.flatMap (Place.shown plain)) =
      startsWith tail (ps.flatMap Place.source) := by
  induction h generalizing tail with
  | nil => rfl
  | @unit c ps _ _ ih =>
    cases tail with
    | nil => rfl
    | cons d tail =>
      have hmore := ih fun v hv hm ↦ ht v hv (List.mem_cons_of_mem _ hm)
      exact congrArg (d == c && ·) hmore
  | @reference form c ps hm _ _ =>
    cases tail with
    | nil => simp [startsWith]
    | cons d tail =>
      obtain ⟨more, hform, -⟩ := exists_tail _ hm
      have hne : ∀ v ∈ groups.map Prod.snd, (d == v) = false := by
        intro v hv
        refine beq_eq_false_iff_ne.mpr fun he ↦ ht v hv ?_
        rw [he]
        exact List.mem_cons_self ..
      have hampersand := hne _ ampersand_mem_values
      have hvalue := hne _ (value_mem_values _ hm)
      simp only at hform hvalue
      simp only [List.flatMap_cons, Place.shown, Place.source, hform]
      split <;> simp [startsWith, List.isPrefixOf, hampersand, hvalue]

theorem IsCut.formAt?_unit {d : CodeUnit} (hf : front? (d :: ps.flatMap Place.source) = none)
    (h : IsCut ps) (plain : List CodeUnit) : formAt? forms (d :: ps.flatMap (Place.shown plain)) =
      none := by
  refine List.find?_eq_none.mpr fun form hm ↦ ?_
  have hmem := mem_table_of_mem_groups _ hg form hm
  obtain ⟨tail, hform, htail⟩ := exists_tail _ hmem
  have hnone := List.find?_eq_none.mp hf _ hmem
  simp only at hform hnone
  rw [hform, startsWith, List.isPrefixOf_cons_cons] at hnone ⊢
  rwa [← startsWith, h.startsWith_shown htail]

variable {plain : List CodeUnit} (hp : ampersand ∉ plain)

include hp

theorem IsCut.replaceAll_shown (h : IsCut ps) :
    replaceAll forms [c] (ps.flatMap (Place.shown plain)) =
      ps.flatMap (Place.shown (c :: plain)) := by
  have hbegin := beginWith_of_mem_groups _ hg
  induction h with
  | nil => rfl
  | @unit d ps hf hps ih =>
    have hnone := IsCut.formAt?_unit hg hf hps plain
    simp only [List.flatMap_cons, Place.shown, List.singleton_append]
    rw [replaceAll_cons hnone, ih]
  | @reference form d ps hm _ ih =>
    obtain ⟨tail, hform, htail⟩ := exists_tail _ hm
    have hfound := formAt?_reference hg hm (ps.flatMap (Place.shown plain))
    simp only at hform
    simp only [List.flatMap_cons, Place.shown, List.mem_cons]
    by_cases hd : d ∈ plain
    · have hne : ampersand ∉ [d] := by
        rw [List.mem_singleton]
        exact fun he ↦ hp (he ▸ hd)
      rw [if_pos hd, if_pos (.inr hd), hbegin.replaceAll_append hne, ih]
    · rw [if_neg hd]
      by_cases hc : d = c
      · rw [if_pos hc] at hfound
        rw [if_pos (.inl hc),
          replaceAll_form_append hfound (by rw [hform]; exact List.cons_ne_nil _ _), ih, hc]
      · rw [if_neg hc, hform, List.cons_append] at hfound
        rw [if_neg (not_or.mpr ⟨hc, hd⟩), hform, List.cons_append, replaceAll_cons hfound,
          hbegin.replaceAll_append (htail _ ampersand_mem_values), ih, List.cons_append]

theorem IsCut.countAll_shown (hc : c ∉ plain) (h : IsCut ps) :
    countAll forms (ps.flatMap (Place.shown plain)) = (ps.filterMap Place.referred?).count c := by
  have hbegin := beginWith_of_mem_groups _ hg
  induction h with
  | nil => rfl
  | @unit d ps hf hps ih =>
    have hnone := IsCut.formAt?_unit hg hf hps plain
    simp only [List.flatMap_cons, Place.shown, List.singleton_append]
    rw [countAll_cons hnone, ih]
    rfl
  | @reference form d ps hm _ ih =>
    obtain ⟨tail, hform, htail⟩ := exists_tail _ hm
    have hfound := formAt?_reference hg hm (ps.flatMap (Place.shown plain))
    have hreferred : (Place.reference form d :: ps).filterMap Place.referred? =
      d :: ps.filterMap Place.referred? := rfl
    simp only at hform
    rw [hreferred, List.count_cons, List.flatMap_cons, Place.shown]
    by_cases hd : d ∈ plain
    · have hne : ampersand ∉ [d] := by
        rw [List.mem_singleton]
        exact fun he ↦ hp (he ▸ hd)
      have hother : (d == c) = false := beq_eq_false_iff_ne.mpr fun he ↦ hc (he ▸ hd)
      rw [if_pos hd, hbegin.countAll_append hne, ih, hother]
      rfl
    · rw [if_neg hd]
      by_cases he : d = c
      · rw [if_pos he] at hfound
        rw [countAll_form_append hfound (by rw [hform]; exact List.cons_ne_nil _ _), ih,
          beq_iff_eq.mpr he, if_pos rfl]
      · rw [if_neg he, hform, List.cons_append] at hfound
        rw [hform, List.cons_append, countAll_cons hfound,
          hbegin.countAll_append (htail _ ampersand_mem_values), ih, beq_eq_false_iff_ne.mpr he]
        rfl

end Group

theorem IsCut.shown_values {ps : List Place} (h : IsCut ps) :
    ps.flatMap (Place.shown (ampersand :: ((predefined.map Prod.snd).reverse ++ []))) =
      ps.map Place.value := by
  have hvalues : ∀ v ∈ groups.map Prod.snd,
    v ∈ ampersand :: ((predefined.map Prod.snd).reverse ++ []) := by decide
  induction h with
  | nil => rfl
  | unit _ _ ih => rw [List.flatMap_cons, ih, List.map_cons]; rfl
  | reference hm _ ih =>
    rw [List.flatMap_cons, ih, List.map_cons, Place.shown,
      if_pos (hvalues _ (value_mem_values _ hm))]
    rfl

theorem IsCut.of_ampersand_not_mem {ps : List Place} (h : IsCut ps)
    (ha : ampersand ∉ ps.flatMap Place.source) :
    ps.filterMap Place.referred? = [] ∧ ps.map Place.value = ps.flatMap Place.source := by
  induction h with
  | nil => exact ⟨rfl, rfl⟩
  | unit _ _ ih =>
    rw [List.flatMap_cons, List.mem_append, not_or] at ha
    obtain ⟨hreferred, hvalue⟩ := ih ha.2
    refine ⟨hreferred, ?_⟩
    rw [List.map_cons, hvalue]
    rfl
  | reference hm _ _ =>
    obtain ⟨tail, hform, -⟩ := exists_tail _ hm
    simp only at hform
    rw [List.flatMap_cons, Place.source, hform] at ha
    exact absurd (List.mem_cons_self ..) ha

theorem shown_places (s : Text) : (places s).flatMap (Place.shown []) = s := by
  have hsource : Place.shown [] = Place.source := by
    funext p
    cases p <;> rfl
  rw [hsource, (isCut_places s).2]

theorem peels_places (s : Text) :
    Expansion.Peels (fun plain ↦ (places s).flatMap (Place.shown plain)) (referredIn s) where
  replace hg hp := (isCut_places s).1.replaceAll_shown hg hp
  count hg hp hc := (isCut_places s).1.countAll_shown hg hp hc
  weight_eq_zero h := by
    simp only [shown_places] at h
    obtain ⟨hcut, hsource⟩ := isCut_places s
    rw [referredIn, (hcut.of_ampersand_not_mem (by rwa [hsource])).1]
    rfl
  shown_eq h := by
    simp only [shown_places] at h ⊢
    obtain ⟨hcut, hsource⟩ := isCut_places s
    rw [hcut.shown_values, (hcut.of_ampersand_not_mem (by rwa [hsource])).2, hsource]

/-- Replacing one group of references after the other, the ampersand last, comes to one pass. -/
theorem foldl_replaceAll_eq_resolve (s : Text) :
    groups.foldl (fun t g ↦ replaceAll g.1 [g.2] t) s = resolve s := by
  have hfold := foldl_groups_shown _ (peels_places s).replace
  simp only [shown_places] at hfold
  rw [hfold, (isCut_places s).1.shown_values, resolve]

theorem resolve_escape (s : Text) : resolve (escape s) = s := by
  rw [← foldl_replaceAll_eq_resolve, foldl_replaceAll_escape]

end Reference

namespace Expansion

open Reference

theorem decode_metered (x : Expansion) (hx : x.count ≤ maxCount) (s : Text) :
    Metered .tooMany (x.count + weight (referredIn s)) (x.decode [] s)
      (x.charge (weight (referredIn s)), resolve s) := by
  have hd := (peels_places s).decode_metered x hx
  simp only [shown_places] at hd
  rwa [(isCut_places s).1.shown_values] at hd

/-- In a document that declares no entities, decoding a text is one pass over it that replaces every
reference once, as long as the references that count stay within their limit; beyond it the text is
refused. So decoding undoes escaping. -/
theorem decode_eq_resolve (x : Expansion) (hx : x.count ≤ maxCount) (s : Text) :
    groups.foldl (fun t g ↦ replaceAll g.1 [g.2] t) s = resolve s ∧ resolve (escape s) = s ∧
      (x.count + weight (referredIn s) ≤ maxCount →
        x.decode [] s = .ok (x.charge (weight (referredIn s)), resolve s)) ∧
      (maxCount < x.count + weight (referredIn s) → ∃ n, maxCount < n ∧ x.decode [] s =
        .error (.tooMany n)) ∧
      (x.count + weight s ≤ maxCount → x.decode [] (escape s) = .ok (x.charge (weight s), s)) ∧
      (maxCount < x.count + weight s → ∃ n, maxCount < n ∧ x.decode [] (escape s) =
        .error (.tooMany n)) := by
  obtain ⟨hok, herror⟩ := x.decode_metered hx s
  obtain ⟨hescaped, hrefused⟩ := x.decode_escape hx s
  exact ⟨foldl_replaceAll_eq_resolve s, resolve_escape s, hok, herror, hescaped, hrefused⟩

/-- References that overlap, that are broken off, and that come to be only when others have been
replaced. -/
theorem decode_overlapping :
    Expansion.count {} ≤ maxCount ∧
      Expansion.decode {} [] "&&amp;#38;lt;&lt&#x3C;&amp;amp;quot;&#x3c;" =
        .ok (Expansion.charge {} 1, "&&#38;lt;&lt<&amp;quot;&#x3c;") := by
  have hx : Expansion.count {} ≤ maxCount := Nat.zero_le _
  have hpass : resolve "&&amp;#38;lt;&lt&#x3C;&amp;amp;quot;&#x3c;" =
    "&&#38;lt;&lt<&amp;quot;&#x3c;" := by decide
  have hweight : weight (referredIn "&&amp;#38;lt;&lt&#x3C;&amp;amp;quot;&#x3c;") = 1 := by decide
  have hd := (decode_eq_resolve {} hx "&&amp;#38;lt;&lt&#x3C;&amp;amp;quot;&#x3c;").2.2.1
  rw [hpass, hweight] at hd
  exact ⟨hx, hd (by decide)⟩

/-- The written form of many characters is refused, although one pass would give them back. -/
theorem decode_crowded :
    resolve (escape (List.replicate 1001 greater)) = List.replicate 1001 greater ∧
      ∃ n, maxCount < n ∧ Expansion.decode {} [] (escape (List.replicate 1001 greater)) =
        .error (.tooMany n) := by
  refine ⟨resolve_escape _, (Expansion.decode_escape {} (Nat.zero_le _) _).2 ?_⟩
  have hweight : weight (List.replicate 1001 greater) = 1001 := by
    rw [weight, List.countP_replicate, if_pos (by decide)]
  rw [hweight]
  decide

end Expansion
end AnalysisProject.Markup
