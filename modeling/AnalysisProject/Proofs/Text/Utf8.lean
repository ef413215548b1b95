import AnalysisProject.Proofs.Text.Seam
import AnalysisProject.Text.Utf8

namespace AnalysisProject

open CodeUnit

namespace Utf8

theorem start_one : ∀ n < 0x80, start n.toUInt8 = ([n.toUInt16], none) := by decide

theorem start_two :
    ∀ n < 0x20, 2 ≤ n → start (0xC0 + n).toUInt8 = ([], some ⟨n, 1, 0x80, 0xBF⟩) := by decide

theorem start_three :
    ∀ n < 0x10, start (0xE0 + n).toUInt8 =
      ([], some ⟨n, 2, if n = 0 then 0xA0 else 0x80, if n = 0xD then 0x9F else 0xBF⟩) := by decide

theorem start_four : ∀ n < 5, start (0xF0 + n).toUInt8 =
    ([], some ⟨n, 3, if n = 0 then 0x90 else 0x80, if n = 4 then 0x8F else 0xBF⟩) := by decide

theorem step_some {p : Partial} {n : Nat} (hn : n < 0x40) (hl : p.low.toNat ≤ 0x80 + n)
    (hh : 0x80 + n ≤ p.high.toNat) :
    step (some p) (0x80 + n).toUInt8 =
      if p.missing ≤ 1 then (Text.ofChar (Char.ofNat (p.bits * 0x40 + n)), none)
      else ([], some ⟨p.bits * 0x40 + n, p.missing - 1, 0x80, 0xBF⟩) := by
  have hb : (0x80 + n).toUInt8.toNat = 0x80 + n := by
    rw [Nat.toUInt8, UInt8.toNat_ofNat', Nat.mod_eq_of_lt (by omega)]
  have hrange : (p.low ≤ (0x80 + n).toUInt8 && (0x80 + n).toUInt8 ≤ p.high) = true := by
    simp only [Bool.and_eq_true, decide_eq_true_eq, UInt8.le_iff_toNat_le, hb]
    exact ⟨hl, hh⟩
  rw [step, if_pos hrange, hb, Nat.add_sub_cancel_left]

theorem decodeFrom_cons {p p' : Option Partial} {b : UInt8} {s : Text} (h : step p b = (s, p'))
    (rest : Bytes) :
    decodeFrom p (b :: rest) = s ++ decodeFrom p' rest := by
  rw [decodeFrom, h]

theorem decodeFrom_last {p : Partial} (hp : p.missing = 1 ∧ p.low = 0x80 ∧ p.high = 0xBF) {n : Nat}
    (hn : n < 0x40) (rest : Bytes) :
    decodeFrom (some p) ((0x80 + n).toUInt8 :: rest) =
      Text.ofChar (Char.ofNat (p.bits * 0x40 + n)) ++ decodeFrom none rest := by
  obtain ⟨hm, hl, hh⟩ := hp
  have hs := step_some (p := p) hn (by rw [hl]; exact Nat.le_add_right _ _)
    (by rw [hh]; exact Nat.add_le_add_left (Nat.le_of_lt_succ hn) 0x80)
  rw [if_pos (Nat.le_of_eq hm)] at hs
  exact decodeFrom_cons hs rest

theorem decodeFrom_middle {p : Partial} (hp : 1 < p.missing) {n : Nat} (hn : n < 0x40)
    (hl : p.low.toNat ≤ 0x80 + n) (hh : 0x80 + n ≤ p.high.toNat) (rest : Bytes) :
    decodeFrom (some p) ((0x80 + n).toUInt8 :: rest) =
      decodeFrom (some ⟨p.bits * 0x40 + n, p.missing - 1, 0x80, 0xBF⟩) rest := by
  have hs := step_some hn hl hh
  rw [if_neg (by omega)] at hs
  exact decodeFrom_cons hs rest

theorem toNat_ite (p : Prop) [Decidable p] (a b : UInt8) :
    (if p then a else b).toNat = if p then a.toNat else b.toNat := apply_ite UInt8.toNat p a b

theorem toNat_cases (c : Char) : c.toNat < 0xD800 ∨ 0xDFFF < c.toNat ∧ c.toNat < 0x110000 := c.valid

/-- The sequence of a character is read as that character, whatever follows it. -/
theorem decodeFrom_encodeChar (c : Char) (rest : Bytes) :
    decodeFrom none (encodeChar c ++ rest) = Text.ofChar c ++ decodeFrom none rest := by
  have hc := toNat_cases c
  have hlt (n : Nat) : n % 0x40 < 0x40 := Nat.mod_lt n (by decide)
  rw [encodeChar]
  by_cases h₁ : c.toNat < 0x80
  · rw [if_pos h₁, List.singleton_append, decodeFrom_cons (p := none) (start_one _ h₁), Text.ofChar,
      if_pos (by omega)]
  · rw [if_neg h₁]
    by_cases h₂ : c.toNat < 0x800
    · have hs := start_two (c.toNat / 0x40) (by omega) (by omega)
      have hbits : c.toNat / 0x40 * 0x40 + c.toNat % 0x40 = c.toNat := by omega
      rw [if_pos h₂, List.cons_append, List.singleton_append, decodeFrom_cons (p := none) hs,
        List.nil_append, decodeFrom_last ⟨rfl, rfl, rfl⟩ (hlt _), hbits, Char.ofNat_toNat]
    · rw [if_neg h₂]
      by_cases h₃ : c.toNat < 0x10000
      · have hs := start_three (c.toNat / 0x1000) (by omega)
        have hbits : (c.toNat / 0x1000 * 0x40 + c.toNat / 0x40 % 0x40) * 0x40 + c.toNat % 0x40 =
          c.toNat := by omega
        rw [if_pos h₃, List.cons_append, List.cons_append, List.singleton_append,
          decodeFrom_cons (p := none) hs, List.nil_append,
          decodeFrom_middle (Nat.lt_succ_self 1) (hlt _) ?_ ?_,
          decodeFrom_last ⟨rfl, rfl, rfl⟩ (hlt _), hbits, Char.ofNat_toNat]
        · rw [toNat_ite]
          split <;> simp only [UInt8.reduceToNat] <;> omega
        · rw [toNat_ite]
          split <;> simp only [UInt8.reduceToNat] <;> omega
      · have hs := start_four (c.toNat / 0x40000) (by omega)
        have hbits : ((c.toNat / 0x40000 * 0x40 + c.toNat / 0x1000 % 0x40) * 0x40 +
          c.toNat / 0x40 % 0x40) * 0x40 +
            c.toNat % 0x40 = c.toNat := by omega
        rw [if_neg h₃, List.cons_append, List.cons_append, List.cons_append, List.singleton_append,
          decodeFrom_cons (p := none) hs, List.nil_append,
          decodeFrom_middle (show 1 < 3 by decide) (hlt _) ?_ ?_,
          decodeFrom_middle (show 1 < 2 by decide) (hlt _) ?_ ?_,
          decodeFrom_last ⟨rfl, rfl, rfl⟩ (hlt _), hbits,
          Char.ofNat_toNat]
        · simp only [UInt8.reduceToNat]
          omega
        · simp only [UInt8.reduceToNat]
          omega
        · rw [toNat_ite]
          split <;> simp only [UInt8.reduceToNat] <;> omega
        · rw [toNat_ite]
          split <;> simp only [UInt8.reduceToNat] <;> omega

end Utf8

namespace CodeUnit

theorem isHighSurrogate_iff (c : CodeUnit) :
    c.isHighSurrogate = true ↔ 0xD800 ≤ c.toNat ∧ c.toNat ≤ 0xDBFF := by
  simp only [isHighSurrogate, Bool.and_eq_true, decide_eq_true_eq, UInt16.le_iff_toNat_le,
    UInt16.reduceToNat]

theorem isLowSurrogate_iff (c : CodeUnit) :
    c.isLowSurrogate = true ↔ 0xDC00 ≤ c.toNat ∧ c.toNat ≤ 0xDFFF := by
  simp only [isLowSurrogate, Bool.and_eq_true, decide_eq_true_eq, UInt16.le_iff_toNat_le,
    UInt16.reduceToNat]

def alone (c : CodeUnit) : CodeUnit :=
  if c.isHighSurrogate || c.isLowSurrogate then Utf8.replacement else c

theorem alone_eq_self {c : CodeUnit} (hh : c.isHighSurrogate = false)
    (hl : c.isLowSurrogate = false) :
    c.alone = c := by
  rw [alone, hh, hl]
  rfl

theorem not_surrogate_of_isSeam {c : CodeUnit} (h : c.isSeam = true) :
    c.isHighSurrogate = false ∧ c.isLowSurrogate = false := by
  simp only [isSeam, Bool.and_eq_true, decide_eq_true_eq, UInt16.lt_iff_toNat_lt,
    UInt16.reduceToNat] at h
  rw [Bool.eq_false_iff, Bool.eq_false_iff, Ne, Ne, isHighSurrogate_iff, isLowSurrogate_iff]
  omega

end CodeUnit

namespace Text

/-- The text with U+FFFD for every surrogate that has no partner. -/
def repair (s : Text) : Text := s.toChars.flatMap ofChar

theorem toNat_ofNat {n : Nat} (h : n.isValidChar) : (Char.ofNat n).toNat = n := by
  rw [Char.ofNat, dif_pos h]
  rfl

theorem ofChar_ofNat {c : CodeUnit} (hh : c.isHighSurrogate = false)
    (hl : c.isLowSurrogate = false) :
    ofChar (Char.ofNat c.toNat) = [c] := by
  rw [Bool.eq_false_iff, Ne, isHighSurrogate_iff] at hh
  rw [Bool.eq_false_iff, Ne, isLowSurrogate_iff] at hl
  have hlt : c.toNat < 0x10000 := c.toNat_lt
  have hv : c.toNat.isValidChar := by
    rw [Nat.isValidChar]
    omega
  rw [ofChar, toNat_ofNat hv, if_pos hlt, Nat.toUInt16, UInt16.ofNat_toNat]

theorem ofChar_pairChar {c d : CodeUnit} (hc : c.isHighSurrogate = true)
    (hd : d.isLowSurrogate = true) :
    ofChar (pairChar c d) = [c, d] := by
  rw [isHighSurrogate_iff] at hc
  rw [isLowSurrogate_iff] at hd
  have hv : (0x10000 + (c.toNat - 0xD800) * 0x400 + (d.toNat - 0xDC00)).isValidChar := by
    rw [Nat.isValidChar]
    omega
  have hhigh : 0xD800 + (0x10000 + (c.toNat - 0xD800) * 0x400 + (d.toNat - 0xDC00) - 0x10000) /
      0x400 = c.toNat := by
    omega
  have hlow : 0xDC00 + (0x10000 + (c.toNat - 0xD800) * 0x400 + (d.toNat - 0xDC00) - 0x10000) %
      0x400 = d.toNat := by
    omega
  rw [ofChar, pairChar, toNat_ofNat hv, if_neg (by omega), hhigh, hlow]
  simp only [Nat.toUInt16, UInt16.ofNat_toNat]

theorem repair_pair {c d : CodeUnit} (hc : c.isHighSurrogate = true) (hd : d.isLowSurrogate = true)
    (s : Text) :
    repair (c :: d :: s) = c :: d :: repair s := by
  rw [repair, toChars, hc, hd, Bool.true_and, if_pos rfl, List.flatMap_cons, ofChar_pairChar hc hd]
  rfl

theorem ofChar_alone (c : CodeUnit) :
    ofChar (if c.isHighSurrogate || c.isLowSurrogate then '\ufffd' else Char.ofNat c.toNat) =
      [c.alone] := by
  rw [alone]
  split
  · rfl
  · next h =>
    rw [Bool.not_eq_true, Bool.or_eq_false_iff] at h
    exact ofChar_ofNat h.1 h.2

theorem repair_alone {c : CodeUnit} {s : Text}
    (h : ∀ d ∈ s.head?, ¬(c.isHighSurrogate = true ∧ d.isLowSurrogate = true)) :
    repair (c :: s) = c.alone :: repair s := by
  have hchars : toChars (c :: s) =
      (if c.isHighSurrogate || c.isLowSurrogate then '\ufffd' else Char.ofNat c.toNat) ::
        toChars s := by
    cases s with
    | nil =>
      rw [toChars, toChars]
      split <;> rfl
    | cons d s =>
      have hp : (c.isHighSurrogate && d.isLowSurrogate) = false := by simpa using h d rfl
      rw [toChars, hp, if_neg Bool.false_ne_true]
      split <;> rfl
  rw [repair, hchars, List.flatMap_cons, ofChar_alone, List.singleton_append, repair]

theorem repair_cases (c : CodeUnit) (s : Text) :
    (∃ d t, s = d :: t ∧ c.isHighSurrogate = true ∧ d.isLowSurrogate = true) ∨
      ∀ d ∈ s.head?, ¬(c.isHighSurrogate = true ∧ d.isLowSurrogate = true) := by
  cases s with
  | nil => exact .inr nofun
  | cons d t =>
    by_cases h : c.isHighSurrogate = true ∧ d.isLowSurrogate = true
    · exact .inl ⟨d, t, rfl, h⟩
    · exact .inr fun e he ↦ Option.some.inj he ▸ h

theorem repair_eq_self {s : Text} (h : s.isWellFormed = true) : s.repair = s := by
  fun_induction isWellFormed s with
  | case1 => rfl
  | case2 c =>
    rw [Bool.and_eq_true, Bool.not_eq_true', Bool.not_eq_true'] at h
    rw [repair_alone fun d _ ↦ by simp [h.1], alone_eq_self h.1 h.2]
    rfl
  | case3 c d s hp ih =>
    rw [Bool.and_eq_true] at hp
    rw [repair_pair hp.1 hp.2, ih h]
  | case4 c d s hp ih =>
    simp only [Bool.and_eq_true, Bool.not_eq_true'] at h
    rw [repair_alone fun e he ↦ by simp [h.1.1], alone_eq_self h.1.1 h.1.2, ih h.2]

theorem repair_cut (s : Text) {c : CodeUnit} (h : c.isSeam = true) (t : Text) :
    repair (s ++ c :: t) = repair s ++ c :: repair t := by
  obtain ⟨hh, hl⟩ := not_surrogate_of_isSeam h
  -- A pair takes two units at once, so the recursion is on the length.
  match s with
  | [] => rw [List.nil_append, repair_alone fun d _ ↦ by simp [hh], alone_eq_self hh hl]; rfl
  | d :: s =>
    rcases repair_cases d s with ⟨e, s, rfl, hd, he⟩ | ha
    · rw [List.cons_append, List.cons_append, repair_pair hd he, repair_pair hd he,
        repair_cut s h t]
      rfl
    · have hc :
          ∀ e ∈ (s ++ c :: t).head?, ¬(d.isHighSurrogate = true ∧ e.isLowSurrogate = true) := by
        intro e he
        cases s with
        | nil =>
          cases he
          simp [hl]
        | cons e' s => exact ha e he
      rw [List.cons_append, repair_alone hc, repair_alone ha, repair_cut s h t]
      rfl
termination_by s.length

theorem mem_repair {s : Text} {c : CodeUnit} (h : c ∈ repair s) : c = Utf8.replacement ∨ c ∈ s := by
  match s with
  | [] => cases h
  | d :: s =>
    rcases repair_cases d s with ⟨e, s, rfl, hd, he⟩ | ha
    · rw [repair_pair hd he, List.mem_cons, List.mem_cons] at h
      rcases h with rfl | rfl | h
      · simp
      · simp
      · rcases mem_repair h with h | h
        · exact .inl h
        · simp [h]
    · rw [repair_alone ha, List.mem_cons] at h
      rcases h with rfl | h
      · rw [alone]
        split
        · exact .inl rfl
        · exact .inr List.mem_cons_self
      · exact (mem_repair h).imp_right (List.mem_cons_of_mem d)
termination_by s.length

theorem repair_seamless : Seamless repair where
  nil := rfl
  eq_nil s h := by
    cases s with
    | nil => rfl
    | cons c s =>
      rcases repair_cases c s with ⟨d, t, rfl, hc, hd⟩ | ha
      · rw [repair_pair hc hd] at h
        cases h
      · rw [repair_alone ha] at h
        cases h
  lineFeed := rfl
  cut s c t h := repair_cut s h t
  mem s c hc h := by
    rcases mem_repair h with rfl | h
    · cases hc
    · exact h

end Text

theorem Utf8.decode_encode (s : Text) : decode (encode s) = s.repair := by
  rw [decode, encode, Text.repair]
  induction s.toChars with
  | nil => rfl
  | cons c l ih => rw [List.flatMap_cons, decodeFrom_encodeChar, ih, List.flatMap_cons]

end AnalysisProject
