import AnalysisProject.Number.Shortest
import AnalysisProject.Proofs.Project.LineNumber
import AnalysisProject.Proofs.Value.Reader
import Mathlib.Data.List.DropRight

namespace AnalysisProject

open CodeUnit

namespace Json

/-- What may follow a number: nothing with which it would go on. -/
def Ends (rest : Text) : Prop :=
  ∀ c ∈ rest.head?, c.isDigit = false ∧ c ≠ 0x2E ∧ c ≠ 0x65 ∧ c ≠ 0x45

structure Numeral where
  negative : Bool
  whole : Text
  fraction : Text
  exponent : Option (Bool × Text)

namespace Numeral

def fractionText (digits : Text) : Text := if digits.isEmpty then [] else "." ++ digits

def exponentText : Option (Bool × Text) → Text
  | none => []
  | some (negative, digits) => (if negative then "e-" else "e+" : Text) ++ digits

def exponentValue : Option (Bool × Text) → Int
  | none => 0
  | some (negative, digits) =>
    if negative then -(Text.digitsValue digits : Int) else Text.digitsValue digits

def text (n : Numeral) : Text :=
  (if n.negative then "-" else [] : Text) ++
    (n.whole ++ (fractionText n.fraction ++ exponentText n.exponent))

def value (n : Numeral) : Number :=
  .ofDecimal n.negative (Text.digitsValue (n.whole ++ n.fraction)) (exponentValue n.exponent -
    n.fraction.length)

structure IsProper (n : Numeral) : Prop where
  whole : n.whole.IsDigits
  zero : n.whole = "0" ∨ Text.startsWith "0" n.whole = false
  fraction : ∀ c ∈ n.fraction, c.isDigit = true
  exponent : ∀ e ∈ n.exponent, e.2.IsDigits

end Numeral

theorem readDigits_append {digits rest : Text} (hd : digits.IsDigits)
    (hr : ∀ c ∈ rest.head?, c.isDigit = false) :
    readDigits (digits ++ rest) = some (digits, rest) := by
  obtain ⟨htake, hdrop⟩ := Text.span_append hd.isDigit hr
  have hhead : (digits ++ rest).head?.any CodeUnit.isDigit = true := by
    obtain ⟨c, s, rfl, hc⟩ := hd.exists_cons
    exact hc
  rw [readDigits, if_pos hhead, htake, hdrop]

variable {rest : Text}

theorem readExponent_append {e : Option (Bool × Text)} (he : ∀ p ∈ e, p.2.IsDigits)
    (hr : Ends rest) :
    readExponent (Numeral.exponentText e ++ rest) = some (Numeral.exponentValue e, rest) := by
  have hdigit : ∀ c ∈ rest.head?, c.isDigit = false := fun c hc ↦ (hr c hc).1
  cases e with
  | none =>
    have hsmall : Text.startsWith "e" rest = false :=
      Text.startsWith_singleton fun c hc ↦ (hr c hc).2.2.1
    have hcapital : Text.startsWith "E" rest = false :=
      Text.startsWith_singleton fun c hc ↦ (hr c hc).2.2.2
    simp [readExponent, Numeral.exponentText, Numeral.exponentValue, hsmall, hcapital]
  | some p =>
    obtain ⟨negative, digits⟩ := p
    have hd := he _ rfl
    have hread := readDigits_append hd hdigit
    -- Behind the letter stand a sign and the digits.
    have hsigned (sign : Text) (hs : Text.IsSign sign) :
        readExponent (0x65 :: (sign ++ (digits ++ rest))) =
          some (if Text.startsWith "-" (sign ++ (digits ++ rest))
            then -(Text.digitsValue digits : Int)
            else Text.digitsValue digits, rest) := by
      have hletter : Text.startsWith "e" (0x65 :: (sign ++ (digits ++ rest))) = true := rfl
      simp only [readExponent, hletter, Bool.true_or, if_true, List.drop_succ_cons, List.drop_zero,
        Text.dropSign_append hs hd, hread, Option.map_some]
    cases negative with
    | true => exact hsigned "-" (.inr (.inr rfl))
    | false => exact hsigned "+" (.inr (.inl rfl))

theorem readFraction_append {digits : Text} (hd : ∀ c ∈ digits, c.isDigit = true)
    (hr : ∀ c ∈ rest.head?, c.isDigit = false ∧ c ≠ 0x2E) :
    readFraction (Numeral.fractionText digits ++ rest) = some (digits, rest) := by
  rw [Numeral.fractionText]
  split
  · next h =>
    have hpoint : Text.startsWith "." rest = false :=
      Text.startsWith_singleton fun c hc ↦ (hr c hc).2
    simp [readFraction, List.isEmpty_iff.mp h, hpoint]
  · next h =>
    have hdigits : digits.IsDigits := ⟨fun he ↦ h (List.isEmpty_iff.mpr he), hd⟩
    exact readDigits_append hdigits fun c hc ↦ (hr c hc).1

theorem readWhole_append {digits : Text} (hd : digits.IsDigits)
    (hzero : digits = "0" ∨ Text.startsWith "0" digits = false)
    (hr : ∀ c ∈ rest.head?, c.isDigit = false) : readWhole (digits ++ rest) =
      some (digits, rest) := by
  rcases hzero with rfl | hzero
  · rfl
  · have hstart : Text.startsWith "0" (digits ++ rest) = false := by
      obtain ⟨c, s, rfl, -⟩ := hd.exists_cons
      exact hzero
    rw [readWhole, hstart]
    exact readDigits_append hd hr

namespace Numeral

theorem head?_fractionText {digits : Text} {c : CodeUnit}
    (hc : c ∈ (fractionText digits ++ rest).head?) :
    c = 0x2E ∨ c ∈ rest.head? := by
  rw [fractionText] at hc
  split at hc
  · exact .inr hc
  · exact .inl (Option.some.inj hc).symm

theorem head?_exponentText {e : Option (Bool × Text)} {c : CodeUnit}
    (hc : c ∈ (exponentText e ++ rest).head?) :
    c = 0x65 ∨ c ∈ rest.head? := by
  match e with
  | none => exact .inr hc
  | some (true, digits) => exact .inl (Option.some.inj hc).symm
  | some (false, digits) => exact .inl (Option.some.inj hc).symm

end Numeral

theorem readNumber_text {n : Numeral} (h : n.IsProper) (hr : Ends rest) :
    readNumber (n.text ++ rest) = some (n.value, rest) := by
  have hletter : ∀ c ∈ (Numeral.exponentText n.exponent ++ rest).head?, c.isDigit = false ∧
      c ≠ 0x2E := by
    intro c hc
    rcases Numeral.head?_exponentText hc with rfl | hc
    · decide
    · exact ⟨(hr c hc).1, (hr c hc).2.1⟩
  have hpoint :
    ∀ c ∈ (Numeral.fractionText n.fraction ++ (Numeral.exponentText n.exponent ++ rest)).head?,
      c.isDigit = false := by
    intro c hc
    rcases Numeral.head?_fractionText hc with rfl | hc
    · rfl
    · exact (hletter c hc).1
  have hexponent := readExponent_append h.exponent hr
  have hfraction := readFraction_append h.fraction hletter
  have hwhole := readWhole_append h.whole h.zero hpoint
  have hminus := h.whole.startsWith_eq_false (c := hyphen) rfl
    (Numeral.fractionText n.fraction ++ (Numeral.exponentText n.exponent ++ rest))
  have hsign : ∀ negative, Text.startsWith "-" ((if negative then "-" else [] : Text) ++
      (n.whole ++ (Numeral.fractionText n.fraction ++ (Numeral.exponentText n.exponent ++ rest)))) =
    negative := by
    rintro (_ | _)
    · exact hminus
    · rfl
  have hdrop : ∀ (negative : Bool) (s : Text),
    (if negative then ((if negative then "-" else [] : Text) ++ s).drop 1
      else (if negative then "-" else [] : Text) ++ s) = s := by
    rintro (_ | _) s <;> rfl
  simp only [readNumber, Numeral.text, List.append_assoc, hsign, hdrop, hwhole, hfraction,
    hexponent, Option.bind_eq_bind, Option.bind_some]
  rfl

end Json

namespace Text

theorem exists_decimal_cons {n : Nat} (h : n ≠ 0) : ∃ c s, decimal n = c :: s ∧ c ≠ 0x30 := by
  induction n using Nat.strongRecOn with
  | ind n ih =>
    by_cases hn : n < 10
    · have hall : ∀ n < 10, n ≠ 0 → ∃ c ∈ (decimal n).head?, c ≠ 0x30 := by decide
      obtain ⟨c, hc, hne⟩ := hall n hn h
      obtain ⟨s, hs⟩ := List.head?_eq_some_iff.mp hc
      exact ⟨c, s, hs, hne⟩
    · obtain ⟨c, s, hs, hne⟩ := ih (n / 10) (by omega) (by omega)
      refine ⟨c, s ++ [(n % 10).digitChar].flatMap ofChar, ?_, hne⟩
      rw [decimal] at hs ⊢
      rw [Nat.toDigits_of_base_le (by decide) (by omega), List.flatMap_append, hs, List.cons_append]

end Text

namespace Json.Numeral

def ofNat (n : Nat) : Numeral := ⟨false, Text.decimal n, [], none⟩

theorem isProper_ofNat (n : Nat) : (ofNat n).IsProper := by
  refine ⟨Text.isDigits_decimal n, ?_, nofun, nofun⟩
  by_cases hn : n = 0
  · subst hn
    exact .inl rfl
  · obtain ⟨c, s, hs, hc⟩ := Text.exists_decimal_cons hn
    refine .inr (Text.startsWith_singleton fun d hd ↦ ?_)
    rw [ofNat, hs] at hd
    exact Option.some.inj hd ▸ hc

theorem value_ofNat {n : Nat} (h : n < 2 ^ 53) : (ofNat n).value = .integer n := by
  simp [value, ofNat, exponentValue, Text.digitsValue_decimal, Number.ofDecimal_of_lt h]

end Json.Numeral

namespace Number.Decimal

open Json

variable {d : Decimal}

def IsLeading (digits : Text) : Prop := digits.IsDigits ∧ Text.startsWith "0" digits = false

theorem isLeading_normalize (h : d.coefficient ≠ 0) : IsLeading d.normalize.1 := by
  obtain ⟨c, s, hs, hc⟩ := Text.exists_decimal_cons h
  have hne : d.normalize.1 ≠ [] := by
    intro he
    have hall := List.rdropWhile_eq_nil_iff.mp he
    rw [hs] at hall
    exact hc (eq_of_beq (hall c List.mem_cons_self))
  have hbegins : d.normalize.1 <+: Text.decimal d.coefficient := List.rdropWhile_prefix ..
  refine ⟨⟨hne, fun e he ↦ Text.isDigit_of_mem_decimal (hbegins.subset he)⟩,
    Text.startsWith_singleton fun e he ↦ ?_⟩
  obtain ⟨t, ht⟩ := hbegins
  obtain ⟨u, hu⟩ := List.head?_eq_some_iff.mp he
  rw [hs, hu] at ht
  exact (List.cons.inj ht).1 ▸ hc

theorem IsLeading.append {digits : Text} (h : IsLeading digits) {s : Text}
    (hs : ∀ c ∈ s, c.isDigit = true) :
    IsLeading (digits ++ s) := by
  obtain ⟨hd, hzero⟩ := h
  refine ⟨⟨List.append_ne_nil_of_left_ne_nil hd.ne_nil s, ?_⟩, ?_⟩
  · intro c hc
    exact (List.mem_append.mp hc).elim (hd.isDigit c) (hs c)
  · obtain ⟨c, t, rfl, -⟩ := hd.exists_cons
    exact hzero

theorem IsLeading.take {digits : Text} (h : IsLeading digits) {n : Nat} (hn : n ≠ 0) :
    IsLeading (digits.take n) := by
  obtain ⟨hd, hzero⟩ := h
  obtain ⟨c, t, rfl, -⟩ := hd.exists_cons
  obtain ⟨m, rfl⟩ := Nat.exists_eq_succ_of_ne_zero hn
  exact ⟨⟨by simp, fun e he ↦ hd.isDigit e (List.mem_of_mem_take he)⟩, hzero⟩

/-- Every layout of a positive decimal is a number in JSON. -/
theorem exists_numeral_layout (h : d.coefficient ≠ 0) :
    ∃ n : Numeral, n.IsProper ∧ n.negative = false ∧ n.text = d.layout := by
  obtain ⟨hd, hzero⟩ := isLeading_normalize h
  have hzeros (n : Int) : ∀ c ∈ (List.replicate n.toNat 0x30 : Text), c.isDigit = true :=
    fun c hc ↦ by
    rw [List.eq_of_mem_replicate hc]
    rfl
  generalize hnormal : d.normalize = normal at hd hzero
  obtain ⟨digits, exponent⟩ := normal
  simp only [layout, hnormal]
  simp only [Bool.and_eq_true, decide_eq_true_eq]
  split
  · have hwhole := IsLeading.append ⟨hd, hzero⟩ (hzeros exponent)
    refine ⟨⟨false, digits ++ List.replicate exponent.toNat 0x30, [], none⟩,
      ⟨hwhole.1, .inr hwhole.2, nofun, nofun⟩, rfl, ?_⟩
    simp [Numeral.text, Numeral.fractionText, Numeral.exponentText]
  · split
    · next hrange hpoint =>
      -- The exponent is negative here, so some digits are left for behind the point.
      have hlt : (digits.length + exponent).toNat < digits.length := by omega
      have hwhole := IsLeading.take ⟨hd, hzero⟩ (n := (digits.length + exponent).toNat) (by omega)
      refine ⟨⟨false, digits.take (digits.length + exponent).toNat,
        digits.drop (digits.length + exponent).toNat, none⟩,
        ⟨hwhole.1, .inr hwhole.2, fun c hc ↦ hd.isDigit c (List.mem_of_mem_drop hc), nofun⟩, rfl,
        ?_⟩
      simp [Numeral.text, Numeral.fractionText, Numeral.exponentText, hlt]
    · split
      · have hnonempty :
            (List.replicate (-(digits.length + exponent)).toNat 0x30 ++ digits).isEmpty = false :=
          List.isEmpty_eq_false_iff.mpr (List.append_ne_nil_of_right_ne_nil _ hd.ne_nil)
        have hdigits : ∀ c ∈ List.replicate (-(digits.length + exponent)).toNat 0x30 ++ digits,
            c.isDigit = true :=
          fun c hc ↦ (List.mem_append.mp hc).elim (hzeros _ c) (hd.isDigit c)
        refine ⟨⟨false, "0", List.replicate (-(digits.length + exponent)).toNat 0x30 ++
          digits, none⟩,
          ⟨Text.isDigits_zero, .inl rfl, hdigits, nofun⟩, rfl, ?_⟩
        simp only [Numeral.text, Numeral.fractionText, Numeral.exponentText, hnonempty,
          Bool.false_eq_true, if_false, List.append_nil]
        rfl
      · have hwhole := IsLeading.take ⟨hd, hzero⟩ (n := 1) (by decide)
        have hempty : (digits.drop 1).isEmpty = true ↔ digits.length ≤ 1 := by
          rw [List.isEmpty_iff, List.drop_eq_nil_iff]
        refine ⟨⟨false, digits.take 1, digits.drop 1, some (decide (digits.length + exponent ≤ 0),
          Text.decimal (digits.length + exponent - 1).natAbs)⟩,
          ⟨hwhole.1, .inr hwhole.2, fun c hc ↦ hd.isDigit c (List.mem_of_mem_drop hc), ?_⟩, rfl, ?_⟩
        · rintro e ⟨⟩
          exact Text.isDigits_decimal _
        · simp only [Numeral.text, Numeral.fractionText, Numeral.exponentText, hempty,
            Bool.false_eq_true, if_false, List.nil_append, List.append_assoc, decide_eq_true_eq]

end Number.Decimal

namespace Number

open Json

theorem shortest_cases (num den : Nat) :
    (shortest num den).coefficient ≠ 0 ∨ shortest num den = ⟨num, 0⟩ := by
  simp only [shortest]
  generalize hfound : List.findSome? _ _ = found
  cases found with
  | none => exact .inr rfl
  | some d =>
    obtain ⟨k, -, hk⟩ := List.exists_of_findSome?_eq_some hfound
    have hd := List.find?_some hk
    simp only [Bool.and_eq_true, bne_iff_ne] at hd
    exact .inl hd.1

def IsUnsigned (s : Text) : Prop := ∃ m : Numeral, m.IsProper ∧ m.negative = false ∧ m.text = s

theorem isUnsigned_shortest (num den : Nat) : IsUnsigned (shortest num den).layout := by
  have hzero : IsUnsigned (Decimal.layout ⟨0, 0⟩) :=
    ⟨⟨false, "0", [], none⟩, ⟨Text.isDigits_zero, .inl rfl, nofun, nofun⟩, rfl, by decide⟩
  rcases shortest_cases num den with h | h
  · exact Decimal.exists_numeral_layout h
  · rw [h]
    by_cases hn : num = 0
    · exact hn ▸ hzero
    · exact Decimal.exists_numeral_layout hn

theorem isUnsigned_decimal (n : Nat) : IsUnsigned (Text.decimal n) := by
  refine ⟨.ofNat n, Numeral.isProper_ofNat n, rfl, ?_⟩
  simp [Numeral.text, Numeral.ofNat, Numeral.fractionText, Numeral.exponentText]

theorem isUnsigned_natText (n : Nat) : IsUnsigned (natText n) := by
  rw [natText]
  split
  · exact isUnsigned_decimal n
  · exact isUnsigned_shortest n 1

theorem IsUnsigned.exists_negative {s : Text} (h : IsUnsigned s) : ∃ m :
    Numeral, m.IsProper ∧ m.text = "-" ++ s := by
  obtain ⟨m, hm, hsign, rfl⟩ := h
  refine ⟨{ m with negative := true }, ⟨hm.whole, hm.zero, hm.fraction, hm.exponent⟩, ?_⟩
  simp [Numeral.text, hsign]

/-- What is written for a number is a number in JSON, or null. -/
theorem number_cases (n : Number) :
    (∃ m : Numeral, m.IsProper ∧ m.text = Json.number n) ∨ Json.number n = "null" := by
  cases n with
  | integer k =>
    by_cases hk : k < 0
    · have htext : Json.number (integer k) = "-" ++ natText k.natAbs := if_pos hk
      rw [htext]
      exact .inl (isUnsigned_natText _).exists_negative
    · have htext : Json.number (integer k) = natText k.natAbs := if_neg hk
      obtain ⟨m, hm, -, hnat⟩ := isUnsigned_natText k.natAbs
      exact .inl ⟨m, hm, hnat.trans htext.symm⟩
  | fraction negative num halvings =>
    cases negative with
    | true => exact .inl (isUnsigned_shortest _ _).exists_negative
    | false =>
      obtain ⟨m, hm, -, htext⟩ := isUnsigned_shortest num (scale 2 1 halvings)
      exact .inl ⟨m, hm, htext⟩
  | infinity negative => exact .inr rfl
  | nan => exact .inr rfl

end Number

end AnalysisProject
