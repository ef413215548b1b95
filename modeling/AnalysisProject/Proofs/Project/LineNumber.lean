import AnalysisProject.Project.LineNumber
import AnalysisProject.Proofs.Number.Nearest
import AnalysisProject.Proofs.Text.Padding
import AnalysisProject.Proofs.Text.Seam
import Mathlib.Data.List.Induction
import Mathlib.Data.Nat.Digits.Defs

namespace AnalysisProject

open CodeUnit

namespace CodeUnit

theorem isBlank_of_isDigit {c : CodeUnit} (h : c.isDigit = true) : c.isBlank = false := by
  simp only [isDigit, Bool.and_eq_true, decide_eq_true_eq, UInt16.le_iff_toNat_le,
    UInt16.reduceToNat] at h
  simp only [isBlank, Bool.or_eq_false_iff, Bool.and_eq_false_iff, decide_eq_false_iff_not,
    beq_eq_false_iff_ne, ne_eq, ← UInt16.toNat_inj, UInt16.le_iff_toNat_le, UInt16.reduceToNat]
  omega

theorem isDigit_of_isBlank {c : CodeUnit} (h : c.isBlank = true) : c.isDigit = false := by
  refine Bool.eq_false_iff.mpr fun hc ↦ ?_
  rw [isBlank_of_isDigit hc] at h
  cases h

theorem isSeam_of_isDigit {c : CodeUnit} (h : c.isDigit = true) : c.isSeam = true := by
  simp only [isDigit, Bool.and_eq_true, decide_eq_true_eq, UInt16.le_iff_toNat_le,
    UInt16.reduceToNat] at h
  simp only [isSeam, lineFeed, carriageReturn, Bool.and_eq_true, decide_eq_true_eq,
    bne_iff_ne, ne_eq, ← UInt16.toNat_inj, UInt16.lt_iff_toNat_lt, UInt16.reduceToNat]
  omega

end CodeUnit

namespace Text

theorem toNat_of_isDigit {c : Char} (h : c.isDigit = true) : 48 ≤ c.toNat ∧ c.toNat ≤ 57 := by
  simp only [Char.isDigit, ge_iff_le, Bool.and_eq_true, decide_eq_true_eq] at h
  exact ⟨UInt32.le_iff_toNat_le.mp h.1, UInt32.le_iff_toNat_le.mp h.2⟩

theorem ofChar_digit {c : Char} (h : c.isDigit = true) :
    ∃ d : CodeUnit, ofChar c = [d] ∧ d.isDigit = true ∧ d.digitValue = c.toNat - 48 := by
  obtain ⟨hl, hu⟩ := toNat_of_isDigit h
  have hd : c.toNat.toUInt16.toNat = c.toNat := by
    rw [Nat.toUInt16, UInt16.toNat_ofNat']
    omega
  refine ⟨c.toNat.toUInt16, if_pos (by omega), ?_, ?_⟩
  · simp only [CodeUnit.isDigit, Bool.and_eq_true, decide_eq_true_eq, UInt16.le_iff_toNat_le, hd]
    exact ⟨hl, hu⟩
  · rw [digitValue, hd]

theorem isDigit_of_mem_decimal {n : Nat} {c : CodeUnit} (h : c ∈ decimal n) : c.isDigit = true := by
  obtain ⟨d, hd, hc⟩ := List.mem_flatMap.mp h
  obtain ⟨e, he, hdigit, -⟩ := ofChar_digit (Nat.isDigit_of_mem_toDigits (by decide) (by decide) hd)
  rw [he, List.mem_singleton] at hc
  exact hc ▸ hdigit

theorem decimal_ne_nil (n : Nat) : decimal n ≠ [] := by
  obtain ⟨c, s, hs⟩ := List.exists_cons_of_ne_nil (Nat.toDigits_ne_nil (n := n) (b := 10))
  have hc : c.isDigit = true :=
    Nat.isDigit_of_mem_toDigits (b := 10) (n := n) (by decide) (by decide)
      (hs ▸ List.mem_cons_self ..)
  obtain ⟨d, hd, -⟩ := ofChar_digit hc
  rw [decimal, hs, List.flatMap_cons, hd]
  exact List.cons_ne_nil _ _

theorem digitsValue_flatMap {cs : List Char} (h : ∀ c ∈ cs, c.isDigit = true) (n : Nat) :
    (cs.flatMap ofChar).foldl (fun n c ↦ 10 * n + c.digitValue) n = Nat.ofDigitChars 10 cs n := by
  induction cs generalizing n with
  | nil => rfl
  | cons c cs ih =>
    obtain ⟨d, hd, -, hvalue⟩ := ofChar_digit (h c (List.mem_cons_self ..))
    rw [List.flatMap_cons, hd, List.singleton_append, List.foldl_cons, hvalue,
      ih fun c hc ↦ h c (List.mem_cons_of_mem _ hc), Nat.ofDigitChars_cons]
    rfl

theorem digitsValue_decimal (n : Nat) : digitsValue (decimal n) = n := by
  rw [digitsValue, decimal, digitsValue_flatMap fun c hc ↦
    Nat.isDigit_of_mem_toDigits (by decide) (by decide) hc,
    Nat.ofDigitChars_ten_toDigits]

theorem digitsValue_eq_ofDigits (s : Text) :
    digitsValue s = Nat.ofDigits 10 (s.reverse.map digitValue) := by
  induction s using List.reverseRecOn with
  | nil => rfl
  | append_singleton s c ih =>
    rw [digitsValue, List.foldl_append, List.foldl_cons, List.foldl_nil, ← digitsValue, ih,
      List.reverse_concat, List.map_cons, Nat.ofDigits_cons, Nat.add_comm]

/-- A run of units that satisfy `p` is as long as what stands behind it allows. -/
theorem span_append {p : CodeUnit → Bool} {s rest : Text} (hs : ∀ c ∈ s, p c = true)
    (hr : ∀ c ∈ rest.head?, p c = false) : (s ++ rest).takeWhile p = s ∧
      (s ++ rest).dropWhile p = rest := by
  rw [List.takeWhile_append_of_pos hs, List.dropWhile_append_of_pos hs]
  cases rest with
  | nil => simp
  | cons c rest => simp [hr c rfl]

theorem startsWith_singleton {c : CodeUnit} {s : Text} (h : ∀ d ∈ s.head?, d ≠ c) :
    startsWith [c] s = false := by
  cases s with
  | nil => rfl
  | cons d s =>
    have hne : (c == d) = false := beq_eq_false_iff_ne.mpr (h d rfl).symm
    simp [startsWith, List.isPrefixOf, hne]

structure IsDigits (s : Text) : Prop where
  ne_nil : s ≠ []
  isDigit (c : CodeUnit) (hc : c ∈ s) : c.isDigit = true

def IsSign (s : Text) : Prop := s = [] ∨ s = "+" ∨ s = "-"

theorem isDigits_decimal (n : Nat) : IsDigits (decimal n) :=
  ⟨decimal_ne_nil n, fun _ ↦ isDigit_of_mem_decimal⟩

theorem isDigits_zero : IsDigits "0" := ⟨by decide, by decide⟩

section Integer

variable {sign digits : Text} (hs : IsSign sign) (hd : IsDigits digits)

include hd

theorem IsDigits.exists_cons : ∃ c s, digits = c :: s ∧ c.isDigit = true := by
  obtain ⟨c, s, hcons⟩ := List.exists_cons_of_ne_nil hd.ne_nil
  exact ⟨c, s, hcons, hd.isDigit c (hcons ▸ List.mem_cons_self ..)⟩

theorem IsDigits.startsWith_eq_false {c : CodeUnit} (hc : c.isDigit = false) (rest : Text) :
    startsWith [c] (digits ++ rest) = false := by
  obtain ⟨d, s, rfl, hdigit⟩ := hd.exists_cons
  refine startsWith_singleton ?_
  rintro e ⟨⟩ rfl
  rw [hdigit] at hc
  cases hc

include hs

theorem dropSign_append (rest : Text) : dropSign (sign ++ (digits ++ rest)) = digits ++ rest := by
  have hplus := hd.startsWith_eq_false (c := plus) rfl rest
  have hminus := hd.startsWith_eq_false (c := hyphen) rfl rest
  rcases hs with rfl | rfl | rfl
  · rw [dropSign, List.nil_append]
    refine if_neg ?_
    rw [Bool.or_eq_true, not_or]
    exact ⟨ne_true_of_eq_false hplus, ne_true_of_eq_false hminus⟩
  · rfl
  · rfl

theorem not_isBlank_of_mem_sign_append {c : CodeUnit} (hc : c ∈ sign ++ digits) :
    c.isBlank = false := by
  rcases List.mem_append.mp hc with hc | hc
  · have hall : ∀ d ∈ ([plus, hyphen] : Text), d.isBlank = false := by decide
    rcases hs with rfl | rfl | rfl
    · cases hc
    · exact hall c (List.mem_cons.mpr (.inl (List.mem_singleton.mp hc)))
    · exact hall c (List.mem_cons_of_mem _ hc)
  · exact isBlank_of_isDigit (hd.isDigit c hc)

variable {raw : Text} (hpad : raw.IsPadded (sign ++ digits))

include hpad

theorem IsPadded.trimStart_eq :
    ∃ after, (∀ c ∈ after, c.isBlank = true) ∧ raw.trimStart = sign ++ (digits ++ after) := by
  obtain ⟨before, after, hbefore, hafter, rfl⟩ := hpad
  refine ⟨after, hafter, ?_⟩
  have hne : sign ++ digits ≠ [] := List.append_ne_nil_of_right_ne_nil _ hd.ne_nil
  obtain ⟨c, s, hcons⟩ := List.exists_cons_of_ne_nil hne
  have hc := not_isBlank_of_mem_sign_append hs hd (hcons ▸ List.mem_cons_self ..)
  rw [trimStart, List.dropWhile_append_of_pos hbefore, hcons, List.cons_append,
    List.dropWhile_cons_of_neg (by simp [hc]), ← List.cons_append, ← hcons, List.append_assoc]

theorem isInteger_of_isPadded : raw.isInteger = true := by
  obtain ⟨after, hafter, htrim⟩ := hpad.trimStart_eq hs hd
  have hdrop :=
    (span_append hd.isDigit fun c hc ↦ isDigit_of_isBlank (hafter c (List.mem_of_mem_head? hc))).2
  simp only [isInteger, htrim, dropSign_append hs hd, hdrop]
  obtain ⟨c, s, rfl, hc⟩ := hd.exists_cons
  simpa [hc] using hafter

theorem leadingInteger_of_isPadded :
    raw.leadingInteger = Number.ofDecimal (decide (sign = "-")) (digitsValue digits) 0 := by
  obtain ⟨after, hafter, htrim⟩ := hpad.trimStart_eq hs hd
  have htake :=
    (span_append hd.isDigit fun c hc ↦ isDigit_of_isBlank (hafter c (List.mem_of_mem_head? hc))).1
  have hminus : startsWith "-" (sign ++ (digits ++ after)) = decide (sign = "-") := by
    rcases hs with rfl | rfl | rfl
    · exact hd.startsWith_eq_false (c := hyphen) rfl after
    · rfl
    · rfl
  simp only [leadingInteger, htrim, dropSign_append hs hd, htake, hminus,
    List.isEmpty_eq_false_iff.mpr hd.ne_nil, Bool.false_eq_true, if_false]

end Integer

end Text

namespace LineNumber

def IsLine : Number → Prop
  | .integer n => 1 ≤ n ∧ n ≤ 2147483647
  | _ => False

instance : DecidablePred IsLine
  | .integer n => inferInstanceAs (Decidable (1 ≤ n ∧ n ≤ 2147483647))
  | .fraction .. | .infinity _ | .nan => inferInstanceAs (Decidable False)

/-- A line number as a document keeps it. -/
def stored (n : Number) : Number := if IsLine n then n else .integer (-1)

def IsStorable (n : Number) : Prop := n = .integer (-1) ∨ IsLine n

theorem isValid_iff {n : Number} : isValid n = true ↔ IsLine n := by
  cases n with
  | integer n =>
    rw [isValid, Bool.and_eq_true, decide_eq_true_iff, decide_eq_true_iff]
    rfl
  | _ => exact iff_of_false nofun id

theorem stored_of_isValid {n : Number} (h : isValid n = true) : stored n = n :=
  if_pos (isValid_iff.mp h)

theorem stored_of_not_isValid {n : Number} (h : ¬ isValid n = true) : stored n = unset :=
  if_neg (mt isValid_iff.mpr h)

theorem stored_eq_self {n : Number} (h : IsStorable n) : stored n = n := by
  rcases h with rfl | h
  · rfl
  · exact if_pos h

theorem exists_of_isValid {n : Number} (h : isValid n = true) :
    ∃ k : Nat, n = .integer k ∧ 0 < k ∧ k ≤ 2147483647 := by
  cases n with
  | integer n =>
    simp only [isValid, largest, Bool.and_eq_true, decide_eq_true_eq] at h
    obtain ⟨k, rfl⟩ := Int.eq_ofNat_of_zero_le (Int.le_of_lt h.1)
    exact ⟨k, rfl, Int.natCast_pos.mp h.1, Int.ofNat_le.mp (of_decide_eq_true h.2)⟩
  | _ => cases h

theorem text_of_isValid {n : Number} (h : isValid n = true) : ∃ k :
    Nat, n = .integer k ∧ n.text = Text.decimal k := by
  obtain ⟨k, rfl, -, hk⟩ := exists_of_isValid h
  have hlarge : 2147483647 < Number.scale 2 1 53 := by decide
  refine ⟨k, rfl, ?_⟩
  rw [Number.text, if_neg (by omega), Number.natText, Int.natAbs_natCast,
    if_pos (Nat.lt_of_le_of_lt hk hlarge)]

theorem parse_text {n : Number} (h : isValid n = true) : parse n.text = n := by
  obtain ⟨k, rfl, ht⟩ := text_of_isValid h
  have hk : k ≤ 2147483647 := by
    obtain ⟨j, he, -, hj⟩ := exists_of_isValid h
    cases he
    exact hj
  have hpad : (Text.decimal k).IsPadded ([] ++ Text.decimal k) :=
    ⟨[], [], by simp, by simp, by simp⟩
  have hsign : Text.IsSign [] := .inl rfl
  have hdigits := Text.isDigits_decimal k
  have hlarge : 2147483647 < 2 ^ 53 := by decide
  have hread : (Text.decimal k).leadingInteger = .integer k := by
    rw [Text.leadingInteger_of_isPadded hsign hdigits hpad, Text.digitsValue_decimal]
    exact Number.ofDecimal_of_lt (Nat.lt_of_le_of_lt hk hlarge)
  simp only [parse, ht, hread, Text.isInteger_of_isPadded hsign hdigits hpad, h, if_true]

theorem isStorable_parse (s : Text) : IsStorable (parse s) := by
  simp only [parse]
  split
  · split
    · next h => exact .inr (isValid_iff.mp h)
    · exact .inl rfl
  · exact .inl rfl

theorem isStorable_ofAttribute (s : Option Text) : IsStorable (ofAttribute s) := by
  cases s with
  | none => exact .inl rfl
  | some s => exact isStorable_parse s

theorem isSeam_of_mem_text {n : Number} (h : isValid n = true) {c : CodeUnit} (hc : c ∈ n.text) :
    c.isSeam = true := by
  obtain ⟨k, -, ht⟩ := text_of_isValid h
  rw [ht] at hc
  exact isSeam_of_isDigit (Text.isDigit_of_mem_decimal hc)

end LineNumber
end AnalysisProject
