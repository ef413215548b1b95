import AnalysisProject.Proofs.Text.Utf8
import AnalysisProject.Text.Small

namespace AnalysisProject

open CodeUnit

namespace CodeUnit

/-- A unit that only ASCII characters have in their small letters. -/
def IsOrdinary (c : CodeUnit) : Prop := c < 0x80 ∧ c ≠ 0 ∧ c ≠ 0x6B

instance (c : CodeUnit) : Decidable c.IsOrdinary := inferInstanceAs (Decidable (_ ∧ _))

theorem not_isOrdinary_of_le {c : CodeUnit} (h : 0x80 ≤ c.toNat) : ¬ c.IsOrdinary := fun ho ↦
  Nat.not_lt_of_le h (UInt16.lt_iff_toNat_lt.mp ho.1)

theorem not_isSurrogate_of_lt {c : CodeUnit} (h : c.toNat < 0x80) :
    (c.isHighSurrogate || c.isLowSurrogate) = false := by
  rw [Bool.eq_false_iff, Ne, Bool.or_eq_true, isHighSurrogate_iff, isLowSurrogate_iff]
  omega

theorem le_of_isSurrogate {c : CodeUnit} (h : (c.isHighSurrogate || c.isLowSurrogate) = true) :
    0x80 ≤ c.toNat := by
  rw [Bool.or_eq_true, isHighSurrogate_iff, isLowSurrogate_iff] at h
  omega

theorem lowerAscii_of_le {c : CodeUnit} (h : 0x80 ≤ c.toNat) : c.lowerAscii = c := by
  refine if_neg ?_
  simp only [Bool.and_eq_true, decide_eq_true_eq, UInt16.le_iff_toNat_le, UInt16.reduceToNat]
  omega

end CodeUnit

namespace Text

/-- A character beyond ASCII, and the letter k, show in their units. -/
theorem exists_mem_ofCodes {codes : List Nat} {n : Nat} (hm : n ∈ codes) (h : 0x80 ≤ n ∨ n = 0x6B) :
    ∃ c ∈ ofCodes codes, ¬ c.IsOrdinary := by
  suffices hc : ∃ c ∈ ofChar (Char.ofNat n), ¬ c.IsOrdinary by
    obtain ⟨c, hc, ho⟩ := hc
    exact ⟨c, List.mem_flatMap.mpr ⟨n, hm, hc⟩, ho⟩
  rcases h with h | rfl
  · by_cases hv : n.isValidChar
    · rw [ofChar, toNat_ofNat hv]
      split
      · refine ⟨_, List.mem_singleton_self _, not_isOrdinary_of_le ?_⟩
        rw [Nat.toUInt16, UInt16.toNat_ofNat']
        omega
      · have hlt : n < 0x110000 := by
          rcases hv with hv | hv
          · omega
          · exact hv.2
        refine ⟨_, List.mem_cons_self .., not_isOrdinary_of_le ?_⟩
        rw [Nat.toUInt16, UInt16.toNat_ofNat']
        omega
    · have hn : Char.ofNat n = '\x00' := dif_neg hv
      rw [hn]
      exact ⟨0, by decide, by decide⟩
  · exact ⟨0x6B, by decide, by decide⟩

end Text

namespace Small

theorem ofCodes_ofCode_of_lt {c : CodeUnit} (h : c.toNat < 0x80) :
    Text.ofCodes (letters.ofCode c.toNat) = [c.lowerAscii] := by
  have hall : ∀ n < 0x80, Text.ofCodes (letters.ofCode n) = [CodeUnit.lowerAscii n.toUInt16] := by
    decide +kernel
  rw [hall _ h, Nat.toUInt16, UInt16.ofNat_toNat]

/-- Where a run of characters beyond ASCII has its small letters. -/
theorem distance_of_mem_runs : ∀ run ∈ runs, 0x80 ≤ run.2.1 →
    0x80 ≤ run.1 + run.2.2.2 ∨ run = (0x212A, 0x212A, 1, -8383) := by decide +kernel

theorem exists_mem_ofCode {n : Nat} (h : 0x80 ≤ n) :
    ∃ m ∈ letters.ofCode n, 0x80 ≤ m ∨ m = 0x6B := by
  rw [CaseMap.ofCode]
  split
  · next counterpart hl =>
    have hall : ∀ entry ∈ expansions, ∃ m ∈ entry.2, 0x80 ≤ m ∨ m = 0x6B := by decide
    obtain ⟨l₁, l₂, he, -⟩ := List.lookup_eq_some_iff.mp hl
    exact hall (n, counterpart) (by rw [show expansions = _ from he]; simp)
  · split
    · next first last step distance hf =>
      have hrange := List.find?_some hf
      simp only [Bool.and_eq_true, decide_eq_true_eq] at hrange
      refine ⟨_, List.mem_singleton_self _, ?_⟩
      rcases distance_of_mem_runs _ (List.mem_of_find?_eq_some hf) (by simp only; omega)
        with hd | hd
      · simp only at hd
        omega
      · obtain ⟨rfl, rfl, rfl, rfl⟩ := by simpa using hd
        omega
    · exact ⟨n, List.mem_singleton_self n, .inl h⟩

end Small

namespace Text

theorem mapCase_cons {m : CaseMap} {c : CodeUnit}
    (h : (c.isHighSurrogate || c.isLowSurrogate) = false) (s : Text) :
    mapCase m (c :: s) = ofCodes (m.ofCode c.toNat) ++ mapCase m s := by
  cases s with
  | nil =>
    have hnil : mapCase m [] = [] := rfl
    rw [hnil, List.append_nil, mapCase, if_neg (ne_true_of_eq_false h)]
  | cons d s =>
    rw [mapCase, (Bool.or_eq_false_iff.mp h).1, Bool.false_and, if_neg Bool.false_ne_true,
      Bool.false_or, (Bool.or_eq_false_iff.mp h).2, if_neg Bool.false_ne_true]

theorem small_of_forall_lt {s : Text} (h : ∀ c ∈ s, c.toNat < 0x80) : s.small = s.lowerAscii := by
  induction s with
  | nil => rfl
  | cons c s ih =>
    obtain ⟨hc, hs⟩ := List.forall_mem_cons.mp h
    have hrest := ih hs
    rw [small] at hrest ⊢
    rw [mapCase_cons (not_isSurrogate_of_lt hc), hrest]
    exact congrArg (· ++ lowerAscii s) (Small.ofCodes_ofCode_of_lt hc)

theorem le_toNat_pairChar {c d : CodeUnit} (hc : c.isHighSurrogate = true)
    (hd : d.isLowSurrogate = true) :
    0x80 ≤ (pairChar c d).toNat := by
  rw [isHighSurrogate_iff] at hc
  rw [isLowSurrogate_iff] at hd
  rw [pairChar, toNat_ofNat]
  · omega
  · exact .inr ⟨by omega, by omega⟩

theorem exists_mem_small {s : Text} (h : ∃ c ∈ s, 0x80 ≤ c.toNat) :
    ∃ c ∈ s.small, ¬ c.IsOrdinary := by
  have hcode {n : Nat} (hn : 0x80 ≤ n) (t : Text) :
      ∃ c ∈ ofCodes (Small.letters.ofCode n) ++ t, ¬ c.IsOrdinary := by
    obtain ⟨m, hm, hle⟩ := Small.exists_mem_ofCode hn
    obtain ⟨c, hc, ho⟩ := exists_mem_ofCodes hm hle
    exact ⟨c, List.mem_append_left _ hc, ho⟩
  rw [small]
  -- The induction follows the map, which takes a pair of surrogates in one step.
  induction s using mapCase.induct with
  | case1 =>
    obtain ⟨c, hc, -⟩ := h
    cases hc
  | case2 c hc =>
    rw [mapCase, if_pos hc]
    exact ⟨c, List.mem_singleton_self c, not_isOrdinary_of_le (le_of_isSurrogate hc)⟩
  | case3 c hc =>
    obtain ⟨d, hd, hle⟩ := h
    rw [mapCase_cons (Bool.eq_false_iff.mpr hc)]
    exact hcode (List.mem_singleton.mp hd ▸ hle) _
  | case4 c d s hp ih =>
    obtain ⟨hc, hd⟩ := Bool.and_eq_true_iff.mp hp
    rw [mapCase, if_pos hp]
    exact hcode (le_toNat_pairChar hc hd) _
  | case5 c d s hp hc ih =>
    rw [mapCase, if_neg hp, if_pos hc]
    exact ⟨c, List.mem_cons_self .., not_isOrdinary_of_le (le_of_isSurrogate hc)⟩
  | case6 c d s hp hc ih =>
    rw [mapCase_cons (Bool.eq_false_iff.mpr hc)]
    obtain ⟨x, hx, hle⟩ := h
    rcases List.mem_cons.mp hx with rfl | hx
    · exact hcode hle _
    · obtain ⟨y, hy, ho⟩ := ih ⟨x, hx, hle⟩
      exact ⟨y, List.mem_append_right _ hy, ho⟩

theorem small_eq_iff {w : Text} (hw : ∀ c ∈ w, c.IsOrdinary) (s : Text) :
    s.small = w ↔ s.lowerAscii = w := by
  by_cases h : ∃ c ∈ s, 0x80 ≤ c.toNat
  · obtain ⟨c, hc, hle⟩ := h
    obtain ⟨d, hd, ho⟩ := exists_mem_small ⟨c, hc, hle⟩
    refine iff_of_false (fun he ↦ ho (hw d (he ▸ hd))) fun he ↦ ?_
    refine not_isOrdinary_of_le hle (hw c (he ▸ ?_))
    exact List.mem_map.mpr ⟨c, hc, lowerAscii_of_le hle⟩
  · have hall : ∀ c ∈ s, c.toNat < 0x80 := fun c hc ↦ Nat.lt_of_not_le fun hle ↦ h ⟨c, hc, hle⟩
    rw [small_of_forall_lt hall]

end Text
end AnalysisProject
