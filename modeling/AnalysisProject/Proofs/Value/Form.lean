import AnalysisProject.Proofs.Text.Joining
import AnalysisProject.Proofs.Value.Numeral
import AnalysisProject.Proofs.Value.Writing
import Mathlib.Data.List.Forall2

namespace AnalysisProject

open CodeUnit

namespace Json

def IsPrintable (s : Text) : Prop := ∀ c ∈ s, 0x20 ≤ c

instance : DecidablePred IsPrintable := fun s ↦ inferInstanceAs (Decidable (∀ c ∈ s, 0x20 ≤ c))

/-- The text is read as the value up to its end, whatever follows. -/
structure IsForm (s : Text) (v : Value) : Prop where
  begins : ∃ c t, s = c :: t ∧ c.isXmlSpace = false ∧ c ≠ closeBracket
  printable : IsPrintable s
  reads (fuel : Nat) (rest : Text) : s.length < fuel → Ends rest → readValue fuel (s ++ rest) =
    some (v, rest)

section Accept

variable {c d : CodeUnit} (hd : d.isXmlSpace = false) (s : Text)

include hd

theorem accept_self : accept d (d :: s) = some s := by simp [accept, hd]

theorem accept_of_ne (h : d ≠ c) : accept c (d :: s) = none := by simp [accept, hd, h]

end Accept

theorem ends_cons {c : CodeUnit} (h : c.isDigit = false ∧ c ≠ 0x2E ∧ c ≠ 0x65 ∧ c ≠ 0x45)
    (s : Text) : Ends (c :: s) := by
  rintro d ⟨⟩
  exact h

theorem IsPrintable.append {s t : Text} (hs : IsPrintable s) (ht : IsPrintable t) :
    IsPrintable (s ++ t) :=
  fun c hc ↦ (List.mem_append.mp hc).elim (hs c) (ht c)

theorem IsPrintable.joinWith {parts : List Text} (h : ∀ part ∈ parts, IsPrintable part) :
    IsPrintable (Text.joinWith "," parts) := by
  intro c hc
  rcases Text.mem_joinWith hc with hc | ⟨part, hm, hc⟩
  · rw [List.mem_singleton.mp hc]
    decide
  · exact h part hm c hc

theorem isPrintable_hexEscape (c : CodeUnit) : IsPrintable (hexEscape c) := by
  have hdigit : ∀ n < 16, 0x20 ≤ hexDigit n := by decide
  have hlt := c.toNat_lt
  intro d hd
  simp only [hexEscape, List.mem_cons, List.not_mem_nil, or_false] at hd
  rcases hd with rfl | rfl | rfl | rfl | rfl | rfl
  · decide
  · decide
  all_goals exact hdigit _ (by omega)

theorem isPrintable_escapeUnit (c : CodeUnit) : IsPrintable (escapeUnit c) := by
  rcases escapeUnit_cases c with ⟨d, -, hd, -, he⟩ | he | ⟨-, -, hle, he⟩
  · intro e hm
    rw [he, List.mem_cons, List.mem_singleton] at hm
    rcases hm with rfl | rfl
    · decide
    · exact hd
  · exact he ▸ isPrintable_hexEscape c
  · intro e hm
    rw [he, List.mem_singleton] at hm
    exact hm ▸ hle

theorem isPrintable_escape (s : Text) : IsPrintable (escape s) := by
  induction s using escape.induct with
  | case1 => exact fun c hc ↦ absurd hc List.not_mem_nil
  | case2 c h =>
    rw [escape, if_pos h]
    exact isPrintable_hexEscape c
  | case3 c h =>
    rw [escape, if_neg h]
    exact isPrintable_escapeUnit c
  | case4 c d s h ih =>
    obtain ⟨hc, hd⟩ := Bool.and_eq_true_iff.mp h
    rw [isHighSurrogate_iff] at hc
    rw [isLowSurrogate_iff] at hd
    rw [escape, if_pos h]
    rintro e (_ | ⟨_, _ | ⟨_, he⟩⟩)
    · simp only [UInt16.le_iff_toNat_le, UInt16.reduceToNat]
      omega
    · simp only [UInt16.le_iff_toNat_le, UInt16.reduceToNat]
      omega
    · exact ih e he
  | case5 c d s h hs ih =>
    rw [escape, if_neg h, if_pos hs]
    exact (isPrintable_hexEscape c).append ih
  | case6 c d s h hs ih =>
    rw [escape, if_neg h, if_neg hs]
    exact (isPrintable_escapeUnit c).append ih

theorem isPrintable_string (s : Text) : IsPrintable (string s) := by
  have hquote : IsPrintable [quote] := by decide
  exact (hquote.append (isPrintable_escape s)).append hquote

theorem isForm_string (s : Text) : IsForm (string s) (.text s) := by
  refine ⟨⟨quote, escape s ++ [quote], rfl, by decide, by decide⟩, isPrintable_string s,
    fun fuel rest hfuel _ ↦ ?_⟩
  obtain ⟨fuel, rfl⟩ := Nat.exists_eq_succ_of_ne_zero (Nat.ne_zero_of_lt hfuel)
  have hread : accept quote (string s ++ rest) = some (escape s ++ quote :: rest) := by
    simp only [string, List.cons_append, List.append_assoc, List.nil_append]
    exact accept_self (by decide) _
  rw [readValue, hread]
  simp only [readString_escape, Option.map_some]
  rfl

/-- A value that holds no others is read as soon as its first unit has shown that it is no text. -/
theorem isForm_of_readScalar {s : Text} {v : Value} {c : CodeUnit} {t : Text} (hs : s = c :: t)
    (hc : c.isXmlSpace = false ∧ c ≠ closeBracket ∧ c ≠ quote ∧ c ≠ bracket ∧ c ≠ brace)
    (hprintable : IsPrintable s) (h : ∀ rest, Ends rest → readScalar (s ++ rest) = some (v, rest)) :
    IsForm s v := by
  obtain ⟨hspace, hclose, hquote, hbracket, hbrace⟩ := hc
  refine ⟨⟨c, t, hs, hspace, hclose⟩, hprintable, fun fuel rest hfuel hrest ↦ ?_⟩
  obtain ⟨fuel, rfl⟩ := Nat.exists_eq_succ_of_ne_zero (Nat.ne_zero_of_lt hfuel)
  have hscalar := h rest hrest
  rw [hs, List.cons_append] at hscalar ⊢
  have hdrop : (c :: (t ++ rest)).dropWhile CodeUnit.isXmlSpace = c :: (t ++ rest) := by
    simp [hspace]
  simp only [readValue, accept_of_ne hspace _ hquote, accept_of_ne hspace _ hbracket,
    accept_of_ne hspace _ hbrace, hdrop]
  exact hscalar

theorem isForm_null : IsForm "null" .null :=
  isForm_of_readScalar rfl (by decide) (by decide) fun _ _ ↦ rfl

theorem isForm_bool (b : Bool) : IsForm (if b then "true" else "false" : Text) (.bool b) := by
  cases b with
  | true => exact isForm_of_readScalar rfl (by decide) (by decide) fun _ _ ↦ rfl
  | false => exact isForm_of_readScalar rfl (by decide) (by decide) fun _ _ ↦ rfl

theorem Numeral.exists_text_cons {n : Numeral} (h : n.IsProper) :
    ∃ c s, n.text = c :: s ∧ (c = hyphen ∨ c.isDigit = true) := by
  obtain ⟨d, s, hs, hd⟩ := h.whole.exists_cons
  rw [Numeral.text, hs]
  cases n.negative with
  | true => exact ⟨_, _, rfl, .inl rfl⟩
  | false => exact ⟨_, _, rfl, .inr hd⟩

theorem isPrintable_of_isDigit {s : Text} (h : ∀ c ∈ s, c.isDigit = true) : IsPrintable s := by
  intro c hc
  have hd := h c hc
  simp only [isDigit, Bool.and_eq_true, decide_eq_true_eq, UInt16.le_iff_toNat_le,
    UInt16.reduceToNat] at hd ⊢
  omega

theorem Numeral.isPrintable_text {n : Numeral} (h : n.IsProper) : IsPrintable n.text := by
  have hempty : IsPrintable [] := fun c hc ↦ absurd hc List.not_mem_nil
  have hsign : IsPrintable (if n.negative then "-" else []) := by
    cases n.negative with
    | true => decide
    | false => exact hempty
  have hpoint : IsPrintable "." := by decide
  have hfraction : IsPrintable (fractionText n.fraction) := by
    rw [fractionText]
    split
    · exact hempty
    · exact hpoint.append (isPrintable_of_isDigit h.fraction)
  have hexponent : IsPrintable (exponentText n.exponent) := by
    cases he : n.exponent with
    | none => exact hempty
    | some p =>
      obtain ⟨negative, digits⟩ := p
      have hletter : IsPrintable (if negative then "e-" else "e+" : Text) := by
        cases negative <;> decide
      exact hletter.append (isPrintable_of_isDigit (h.exponent _ he).isDigit)
  exact hsign.append ((isPrintable_of_isDigit h.whole.isDigit).append (hfraction.append hexponent))

theorem isForm_numeral {n : Numeral} (h : n.IsProper) : IsForm n.text (.number n.value) := by
  obtain ⟨c, s, hs, hc⟩ := Numeral.exists_text_cons h
  have hdigit : ∀ d : CodeUnit, d.isDigit = true → 0x30 ≤ d.toNat ∧ d.toNat ≤ 0x39 := by
    intro d hd
    simpa only [isDigit, Bool.and_eq_true, decide_eq_true_eq, UInt16.le_iff_toNat_le,
      UInt16.reduceToNat] using hd
  have hrange : 0x2D ≤ c.toNat ∧ c.toNat ≤ 0x39 := by
    rcases hc with rfl | hc
    · decide
    · have hd := hdigit c hc
      omega
  have hne (d : CodeUnit) (hd : d.toNat < 0x2D ∨ 0x39 < d.toNat) : c ≠ d := by
    rintro rfl
    omega
  refine isForm_of_readScalar hs ⟨?_, hne _ (by decide), hne _ (by decide), hne _ (by decide),
    hne _ (by decide)⟩
    (Numeral.isPrintable_text h) fun rest hrest ↦ ?_
  · simp only [isXmlSpace, Bool.or_eq_false_iff, beq_eq_false_iff_ne]
    exact ⟨⟨⟨hne _ (by decide), hne _ (by decide)⟩, hne _ (by decide)⟩, hne _ (by decide)⟩
  · have hword (d : CodeUnit) (word : Text) (hd : 0x39 < d.toNat) :
        Text.startsWith (d :: word) (n.text ++ rest) = false := by
      have hcd : (d == c) = false := beq_eq_false_iff_ne.mpr (hne d (.inr hd)).symm
      simp [hs, Text.startsWith, List.isPrefixOf, hcd]
    have hnull := hword 0x6E "ull" (by decide)
    have htrue := hword 0x74 "rue" (by decide)
    have hfalse := hword 0x66 "alse" (by decide)
    rw [readScalar, readNumber_text h hrest]
    exact (if_neg (ne_true_of_eq_false hnull)).trans
      ((if_neg (ne_true_of_eq_false htrue)).trans (if_neg (ne_true_of_eq_false hfalse)))

/-- What a number is written as is read as a number again, or as null. Small numbers for counting
stay what they are. -/
theorem exists_isForm_number (n : Number) :
    ∃ v, IsForm (Json.number n) v ∧ ∀ k : Nat, k < 2 ^ 53 → n = .integer k → v = .number n := by
  by_cases hcount : ∃ k : Nat, k < 2 ^ 53 ∧ n = .integer k
  · obtain ⟨k, hk, rfl⟩ := hcount
    have htext : Json.number (.integer k) = (Numeral.ofNat k).text := by
      have hscale : Number.scale 2 1 53 = 2 ^ 53 := by decide
      have hsmall : k < Number.scale 2 1 53 := hscale ▸ hk
      simp [Json.number, Number.text, Number.natText, hsmall, Numeral.text, Numeral.ofNat,
        Numeral.fractionText, Numeral.exponentText]
    refine ⟨.number (.integer k), ?_, fun _ _ _ ↦ rfl⟩
    rw [htext, ← Numeral.value_ofNat hk]
    exact isForm_numeral (Numeral.isProper_ofNat k)
  · rcases Number.number_cases n with ⟨m, hm, htext⟩ | hnull
    · exact ⟨_, htext ▸ isForm_numeral hm, fun k hk he ↦ absurd ⟨k, hk, he⟩ hcount⟩
    · exact ⟨_, hnull ▸ isForm_null, fun k hk he ↦ absurd ⟨k, hk, he⟩ hcount⟩

theorem joinWith_append_cons (t u : Text) (us : List Text) (s : Text) :
    Text.joinWith "," (t :: u :: us) ++ s = t ++ comma :: (Text.joinWith "," (u :: us) ++ s) := by
  rw [Text.joinWith_cons_cons, List.append_assoc, List.append_assoc]
  rfl

theorem length_joinWith_cons_cons (t u : Text) (us : List Text) :
    (Text.joinWith "," (t :: u :: us)).length = t.length +
      ((Text.joinWith "," (u :: us)).length + 1) := by
  rw [Text.joinWith_cons_cons, List.length_append, List.length_append]
  exact congrArg _ (Nat.add_comm _ _)

section Close

variable {c : CodeUnit} (hc : c = closeBracket ∨ c = closeBrace) (rest : Text)

include hc

theorem accept_close :
    accept comma (c :: rest) = none ∧ accept c (c :: rest) = some rest ∧ Ends (c :: rest) := by
  rcases hc with rfl | rfl
  all_goals exact ⟨accept_of_ne (by decide) _ (by decide), accept_self (by decide) _,
    ends_cons (by decide) _⟩

end Close

theorem readItems_joinWith {ts : List Text} {vs : List Value} (h : List.Forall₂ IsForm ts vs)
    (hne : ts ≠ []) (fuel : Nat) (rest : Text) (hfuel : (Text.joinWith "," ts).length + 1 < fuel) :
    readItems fuel (Text.joinWith "," ts ++ closeBracket :: rest) = some (vs, rest) := by
  induction h generalizing fuel with
  | nil => exact absurd rfl hne
  | @cons t v ts vs ht hts ih =>
    obtain ⟨fuel, rfl⟩ := Nat.exists_eq_succ_of_ne_zero (Nat.ne_zero_of_lt hfuel)
    cases hts with
    | nil =>
      obtain ⟨hcomma, hclose, hends⟩ := accept_close (.inl rfl) rest
      rw [Text.joinWith_singleton] at hfuel ⊢
      simp only [readItems, ht.reads fuel _ (by omega) hends, Option.bind_eq_bind, Option.bind_some,
        hcomma, hclose, Option.map_some]
    | @cons u w us ws hu hus =>
      have hlen := length_joinWith_cons_cons t u us
      have hends :=
        ends_cons (c := comma) (by decide) (Text.joinWith "," (u :: us) ++ closeBracket :: rest)
      have hnext := ih (List.cons_ne_nil u us) fuel (by omega)
      rw [joinWith_append_cons]
      simp only [readItems, ht.reads fuel _ (by omega) hends, Option.bind_eq_bind, Option.bind_some,
        accept_self (d := comma) (by decide), hnext, Option.map_some]
      rfl

theorem printable_of_forall₂ {ts : List Text} {vs : List Value} (h : List.Forall₂ IsForm ts vs) :
    ∀ t ∈ ts, IsPrintable t :=
  ((List.forall₂_and_left _ _).mp (h.imp fun _ _ ht ↦ ⟨ht.printable, ht⟩)).1

theorem isPrintable_singleton {c : CodeUnit} (h : 0x20 ≤ c) : IsPrintable [c] := by
  intro d hd
  exact List.mem_singleton.mp hd ▸ h

theorem length_array (ts : List Text) : (array ts).length = (Text.joinWith "," ts).length + 2 := by
  simp [array]

theorem isForm_array {ts : List Text} {vs : List Value} (h : List.Forall₂ IsForm ts vs) :
    IsForm (array ts) (.list vs) := by
  have hprintable : IsPrintable (array ts) :=
    ((isPrintable_singleton (by decide)).append (.joinWith (printable_of_forall₂ h))).append
      (isPrintable_singleton (by decide))
  refine ⟨⟨bracket, _, rfl, by decide, by decide⟩, hprintable, fun fuel rest hfuel _ ↦ ?_⟩
  obtain ⟨fuel, rfl⟩ := Nat.exists_eq_succ_of_ne_zero (Nat.ne_zero_of_lt hfuel)
  rw [length_array] at hfuel
  have harray : array ts ++ rest = bracket :: (Text.joinWith "," ts ++ closeBracket :: rest) := by
    simp [array]
  have hquote : accept quote (array ts ++ rest) = none :=
    harray ▸ accept_of_ne (by decide) _ (by decide)
  have hopen :
      accept bracket (array ts ++ rest) = some (Text.joinWith "," ts ++ closeBracket :: rest) :=
    harray ▸ accept_self (by decide) _
  have hclose := (accept_close (.inl rfl) rest).2.1
  cases h with
  | nil => simp [readValue, hquote, hopen, Text.joinWith, hclose]
  | @cons t v ts vs ht hts =>
    -- The first unit of the first item shows that the list is not empty.
    have hitem :
        accept closeBracket (Text.joinWith "," (t :: ts) ++ closeBracket :: rest) = none := by
      obtain ⟨c, s, rfl, hspace, hne⟩ := ht.begins
      cases ts with
      | nil => exact accept_of_ne hspace _ hne
      | cons u us => exact accept_of_ne hspace _ hne
    have hitems := readItems_joinWith (.cons ht hts) (List.cons_ne_nil t ts) fuel rest (by omega)
    simp only [readValue, hquote, hopen, hitem, hitems, Option.map_some]
    rfl

def fieldText (field : Text × Text) : Text := string field.1 ++ [colon] ++ field.2

theorem object_eq (fields : List (Text × Text)) :
    object fields = brace :: (Text.joinWith "," (fields.map fieldText) ++ [closeBrace]) := rfl

def IsFieldForm (written : Text × Text) (field : Text × Value) : Prop :=
  written.1 = field.1 ∧ IsForm written.2 field.2

theorem IsFieldForm.printable {written : Text × Text} {field : Text × Value}
    (h : IsFieldForm written field) :
    IsPrintable (fieldText written) :=
  ((isPrintable_string written.1).append (isPrintable_singleton (by decide))).append h.2.printable

theorem readFields_fieldText {written : Text × Text} {field : Text × Value}
    (h : IsFieldForm written field) {fuel : Nat} {rest : Text}
    (hfuel : (fieldText written).length < fuel) (hrest : Ends rest) :
    readFields (fuel + 1) (fieldText written ++ rest) =
      match accept comma rest with
      | some s => (readFields fuel s).map (.map (field :: ·) id)
      | none => (accept closeBrace rest).map ([field], ·) := by
  obtain ⟨key, t⟩ := written
  obtain ⟨_, v⟩ := field
  obtain ⟨rfl, ht⟩ := h
  have hfield :
      fieldText (key, t) ++ rest = quote :: (escape key ++ quote :: colon :: (t ++ rest)) := by
    simp [fieldText, string]
  have hlen : t.length < fuel := by
    simp only [fieldText, List.length_append] at hfuel
    omega
  rw [hfield]
  cases hcomma : accept comma rest <;>
    simp only [readFields, accept_self (d := quote) (by decide),
      accept_self (d := colon) (by decide), readString_escape, ht.reads fuel rest hlen hrest,
      hcomma, Option.bind_eq_bind, Option.bind_some]

theorem readFields_joinWith {written : List (Text × Text)} {fields : List (Text × Value)}
    (h : List.Forall₂ IsFieldForm written fields) (hne : written ≠ []) (fuel : Nat) (rest : Text)
    (hfuel : (Text.joinWith "," (written.map fieldText)).length + 1 < fuel) :
    readFields fuel (Text.joinWith "," (written.map fieldText) ++ closeBrace :: rest) =
      some (fields, rest) := by
  induction h generalizing fuel with
  | nil => exact absurd rfl hne
  | @cons w f ws fs hw hws ih =>
    obtain ⟨fuel, rfl⟩ := Nat.exists_eq_succ_of_ne_zero (Nat.ne_zero_of_lt hfuel)
    cases hws with
    | nil =>
      obtain ⟨hcomma, hclose, hends⟩ := accept_close (.inr rfl) rest
      rw [List.map_cons, List.map_nil, Text.joinWith_singleton] at hfuel ⊢
      rw [readFields_fieldText hw (by omega) hends, hcomma, hclose]
      rfl
    | @cons u g us gs hu hus =>
      have hlen := length_joinWith_cons_cons (fieldText w) (fieldText u) (us.map fieldText)
      have hends := ends_cons (c := comma) (by decide)
        (Text.joinWith "," ((u :: us).map fieldText) ++ closeBrace :: rest)
      simp only [List.map_cons] at hfuel ih hends ⊢
      have hnext := ih (List.cons_ne_nil u us) fuel (by omega)
      rw [joinWith_append_cons, readFields_fieldText hw (by omega) hends, accept_self (by decide)]
      simp only [hnext]
      rfl

/-- An object is read as a record of the fields in it, and of those of one name only the last one
counts. -/
theorem isForm_object {written : List (Text × Text)} {fields : List (Text × Value)}
    (h : List.Forall₂ IsFieldForm written fields) :
    IsForm (object written) (.record (distinct fields)) := by
  have hfields : ∀ t ∈ written.map fieldText, IsPrintable t := by
    have hall :=
      ((List.forall₂_and_left _ _).mp (h.imp fun _ _ hf ↦ ⟨IsFieldForm.printable hf, hf⟩)).1
    intro t ht
    obtain ⟨w, hw, rfl⟩ := List.mem_map.mp ht
    exact hall w hw
  have hprintable : IsPrintable (object written) :=
    ((isPrintable_singleton (by decide)).append (.joinWith hfields)).append
      (isPrintable_singleton (by decide))
  refine ⟨⟨brace, _, rfl, by decide, by decide⟩, hprintable, fun fuel rest hfuel _ ↦ ?_⟩
  obtain ⟨fuel, rfl⟩ := Nat.exists_eq_succ_of_ne_zero (Nat.ne_zero_of_lt hfuel)
  have hlen : (object written).length = (Text.joinWith "," (written.map fieldText)).length + 2 := by
    simp [object_eq]
  have hobject : object written ++ rest =
      brace :: (Text.joinWith "," (written.map fieldText) ++ closeBrace :: rest) := by
    simp [object_eq]
  have hquote : accept quote (object written ++ rest) = none :=
    hobject ▸ accept_of_ne (by decide) _ (by decide)
  have hbracket : accept bracket (object written ++ rest) = none :=
    hobject ▸ accept_of_ne (by decide) _ (by decide)
  have hopen : accept brace (object written ++ rest) =
      some (Text.joinWith "," (written.map fieldText) ++ closeBrace :: rest) :=
    hobject ▸ accept_self (by decide) _
  have hclose := (accept_close (.inr rfl) rest).2.1
  cases h with
  | nil =>
    simp [readValue, hquote, hbracket, hopen, Text.joinWith, hclose]
    rfl
  | @cons w f ws fs hw hws =>
    -- The quote in front of the first name shows that the object is not empty.
    have hitem : accept closeBrace (Text.joinWith "," ((w :: ws).map fieldText) ++ closeBrace ::
        rest) = none := by
      cases ws with
      | nil => exact accept_of_ne (d := quote) (by decide) _ (by decide)
      | cons u us => exact accept_of_ne (d := quote) (by decide) _ (by decide)
    have hread := readFields_joinWith (.cons hw hws) (List.cons_ne_nil w ws) fuel rest (by omega)
    simp only [readValue, hquote, hbracket, hopen, hitem, hread, Option.map_some]
    rfl

end Json
end AnalysisProject
