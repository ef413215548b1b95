import AnalysisProject.Markup.Reference
import AnalysisProject.Proofs.Markup.Escaping
import AnalysisProject.Text.Line

namespace AnalysisProject

open CodeUnit Markup

namespace CodeUnit

/-- An ASCII character that ends no line. -/
def isSeam (c : CodeUnit) : Bool := c < 0x80 && c != lineFeed && c != carriageReturn

end CodeUnit

namespace Text

structure Seamless (f : Text → Text) : Prop where
  nil : f [] = []
  eq_nil : ∀ s, f s = [] → s = []
  lineFeed : f [lineFeed] = [lineFeed]
  cut : ∀ s c t, c.isSeam = true → f (s ++ c :: t) = f s ++ c :: f t
  mem : ∀ s c, c.isSeam = true → c ∈ f s → c ∈ s

namespace Seamless

variable {f : Text → Text} (hf : Seamless f)

include hf

theorem isEmpty_eq (s : Text) : (f s).isEmpty = s.isEmpty := by
  rw [Bool.eq_iff_iff, List.isEmpty_iff, List.isEmpty_iff]
  refine ⟨hf.eq_nil s, ?_⟩
  rintro rfl
  exact hf.nil

theorem append_left {s : Text} (h : ∀ c ∈ s, c.isSeam = true) (t : Text) :
    f (s ++ t) = s ++ f t := by
  induction s with
  | nil => rfl
  | cons c s ih =>
    have hc := hf.cut [] c (s ++ t) (h c (List.mem_cons_self ..))
    rw [List.nil_append, hf.nil, List.nil_append] at hc
    rw [List.cons_append, hc, ih fun d hd ↦ h d (List.mem_cons_of_mem _ hd), List.cons_append]

theorem eq_self {s : Text} (h : ∀ c ∈ s, c.isSeam = true) : f s = s := by
  have hs := hf.append_left h []
  rwa [List.append_nil, hf.nil, List.append_nil] at hs

theorem forall_mem_ne {s : Text} (h : ∀ c ∈ s, c ≠ less ∧ c ≠ ampersand) :
    ∀ c ∈ f s, c ≠ less ∧ c ≠ ampersand := by
  intro c hc
  constructor
  · rintro rfl
    exact (h less (hf.mem s less rfl hc)).1 rfl
  · rintro rfl
    exact (h ampersand (hf.mem s ampersand rfl hc)).2 rfl

theorem append_middle (s : Text) {t : Text} (h : ∀ c ∈ t, c.isSeam = true) (ht : t ≠ [])
    (rest : Text) :
    f (s ++ (t ++ rest)) = f s ++ (t ++ f rest) := by
  obtain ⟨c, t, rfl⟩ := List.exists_cons_of_ne_nil ht
  rw [List.cons_append, hf.cut s c _ (h c (List.mem_cons_self ..)),
    hf.append_left fun d hd ↦ h d (List.mem_cons_of_mem _ hd), List.cons_append]

end Seamless
end Text

namespace Markup.Reference

theorem isSeam_of_mem_written {c : CodeUnit} {reference : Text} (h : (c, reference) ∈ written) :
    c.isSeam = true ∧ ∀ d ∈ reference, d.isSeam = true := by
  simp only [written, List.mem_cons, Prod.mk.injEq, List.not_mem_nil, or_false] at h
  rcases h with ⟨rfl, rfl⟩ | ⟨rfl, rfl⟩ | ⟨rfl, rfl⟩ | ⟨rfl, rfl⟩ | ⟨rfl, rfl⟩
  all_goals decide

theorem escape_append (s t : Text) : escape (s ++ t) = escape s ++ escape t := by
  simp only [escape_eq_flatMap, List.flatMap_append]

theorem spelling_eq_self {c : CodeUnit} (h : written.lookup c = none) : spelling [] c = [c] := by
  rw [spelling, if_neg List.not_mem_nil, h]
  rfl

theorem escape_eq_self {s : Text} (h : ∀ c ∈ s, written.lookup c = none) : escape s = s := by
  rw [escape_eq_flatMap]
  induction s with
  | nil => rfl
  | cons c s ih =>
    rw [List.flatMap_cons, spelling_eq_self (h c (List.mem_cons_self ..)),
      ih fun d hd ↦ h d (List.mem_cons_of_mem _ hd), List.singleton_append]

theorem exists_eq_append (s : Text) :
    (∀ c ∈ s, written.lookup c = none) ∨ ∃ before c reference after, s = before ++ c :: after ∧
      (∀ d ∈ before, written.lookup d = none) ∧ (c, reference) ∈ written ∧ spelling
      [] c = reference := by
  induction s with
  | nil => exact .inl fun _ h ↦ absurd h List.not_mem_nil
  | cons c s ih =>
    rcases Reference.spelling_cases (List.not_mem_nil (a := ampersand)) c with ⟨-, -, hl⟩ | ⟨-, hw⟩
    · have hl := hl.resolve_left List.not_mem_nil
      rcases ih with hs | ⟨before, d, reference, after, rfl, hb, hw, hd⟩
      · exact .inl fun d hd ↦ (List.mem_cons.mp hd).elim (fun h ↦ h ▸ hl) (hs d)
      · exact .inr ⟨c :: before, d, reference, after, rfl,
          fun e he ↦ (List.mem_cons.mp he).elim (fun h ↦ h ▸ hl) (hb e), hw, hd⟩
    · exact .inr ⟨[], c, _, s, rfl, fun _ h ↦ absurd h List.not_mem_nil, hw, rfl⟩

end Markup.Reference

namespace Text.Seamless

variable {f : Text → Text} (hf : Seamless f)

include hf

theorem lookup_written_eq_none {s : Text} (h : ∀ c ∈ s, Reference.written.lookup c = none) :
    ∀ c ∈ f s, Reference.written.lookup c = none := by
  intro c hc
  cases hl : Reference.written.lookup c with
  | none => rfl
  | some reference =>
    obtain ⟨l₁, l₂, hw, -⟩ := List.lookup_eq_some_iff.mp hl
    have hm : (c, reference) ∈ Reference.written := by simp [hw]
    rw [h c (hf.mem s c (Reference.isSeam_of_mem_written hm).1 hc)] at hl
    cases hl

theorem escape (s : Text) : f (Reference.escape s) = Reference.escape (f s) := by
  -- Up to the first character that is written as a reference, nothing is escaped; that character is
  -- a seam.
  rcases Reference.exists_eq_append s with h | ⟨before, c, reference, after, hs, hb, hw, hc⟩
  · rw [Reference.escape_eq_self h, Reference.escape_eq_self (hf.lookup_written_eq_none h)]
  · have hlt : after.length < s.length := by
      rw [hs, List.length_append, List.length_cons]
      omega
    obtain ⟨hseam, href⟩ := Reference.isSeam_of_mem_written hw
    have hunit (t : Text) : Reference.escape (c :: t) = reference ++ Reference.escape t := by
      simp only [Reference.escape_eq_flatMap, List.flatMap_cons, hc]
    rw [hs, hf.cut before c after hseam, Reference.escape_append, Reference.escape_append,
      hunit, hunit, Reference.escape_eq_self hb,
      Reference.escape_eq_self (hf.lookup_written_eq_none hb),
      hf.append_middle before href (Reference.eq_nil_of_mem_written hw), escape after]
termination_by s.length

theorem countP {p : CodeUnit → Bool} (hp : ∀ c, p c = true → c.isSeam = true) (s : Text) :
    (f s).countP p = s.countP p := by
  cases hs : s.find? p with
  | none =>
    have hnone : ∀ c ∈ s, ¬p c = true := List.find?_eq_none.mp hs
    rw [List.countP_eq_zero.mpr hnone, List.countP_eq_zero]
    exact fun c hc hpc ↦ hnone c (hf.mem s c (hp c hpc) hc) hpc
  | some c =>
    obtain ⟨hc, before, after, rfl, hbefore⟩ := List.find?_eq_some_iff_append.mp hs
    have hnone : ∀ d ∈ before, ¬p d = true := fun d hd ↦ by simpa using hbefore d hd
    have hnone' : ∀ d ∈ f before, ¬p d = true :=
      fun d hd hpd ↦ hnone d (hf.mem before d (hp d hpd) hd) hpd
    have hlt : after.length < (before ++ c :: after).length := by
      rw [List.length_append, List.length_cons]
      omega
    rw [hf.cut before c after (hp c hc), List.countP_append, List.countP_append, List.countP_cons,
      List.countP_cons, List.countP_eq_zero.mpr hnone, List.countP_eq_zero.mpr hnone',
      countP hp after]
termination_by s.length

theorem weight (s : Text) : Reference.weight (f s) = Reference.weight s := by
  refine hf.countP (fun c hc ↦ ?_) s
  have hall : ∀ c ∈ Reference.predefined.map Prod.snd, c.isSeam = true := by decide
  exact hall c (List.contains_iff_mem.mp hc)

end Text.Seamless

namespace Text

theorem unifyFrom_cut (afterReturn : Bool) (s : Text) {c : CodeUnit} (h : c.isSeam = true)
    (t : Text) :
    unifyFrom afterReturn (s ++ c :: t) = unifyFrom afterReturn s ++ c :: unifyLines t := by
  induction s generalizing afterReturn with
  | nil =>
    have hr : c ≠ carriageReturn := by rintro rfl; cases h
    have hl : c ≠ lineFeed := by rintro rfl; cases h
    simp [unifyFrom, unifyLines, hr, hl]
  | cons d s ih =>
    rw [List.cons_append, unifyFrom, unifyFrom, ih, ih]
    split
    · rfl
    · split <;> rfl

theorem mem_unifyFrom {afterReturn : Bool} {s : Text} {c : CodeUnit}
    (h : c ∈ unifyFrom afterReturn s) :
    c = lineFeed ∨ c ∈ s ∧ c ≠ carriageReturn := by
  induction s generalizing afterReturn with
  | nil => cases h
  | cons d s ih =>
    have of_tail {flag : Bool} (h : c ∈ unifyFrom flag s) :
        c = lineFeed ∨ c ∈ d :: s ∧ c ≠ carriageReturn :=
      (ih h).imp_right fun ⟨hm, hr⟩ ↦ ⟨List.mem_cons_of_mem _ hm, hr⟩
    rw [unifyFrom] at h
    split at h
    · rcases List.mem_cons.mp h with h | h
      · exact .inl h
      · exact of_tail h
    · next hr =>
      split at h
      · exact of_tail h
      · rcases List.mem_cons.mp h with rfl | h
        · exact .inr ⟨List.mem_cons_self .., hr⟩
        · exact of_tail h

theorem carriageReturn_not_mem_unifyLines (s : Text) : carriageReturn ∉ s.unifyLines := by
  intro h
  rcases mem_unifyFrom h with h | h
  · exact absurd h (by decide)
  · exact h.2 rfl

theorem unifyLines_eq_self {s : Text} (h : carriageReturn ∉ s) : s.unifyLines = s := by
  induction s with
  | nil => rfl
  | cons c s ih =>
    obtain ⟨hc, hs⟩ := not_or.mp (mt List.mem_cons.mpr h)
    rw [unifyLines, unifyFrom, if_neg (Ne.symm hc), Bool.false_and, if_neg Bool.false_ne_true]
    exact congrArg (c :: ·) (ih hs)

theorem unifyLines_seamless : Seamless unifyLines where
  nil := rfl
  eq_nil s h := by
    cases s with
    | nil => rfl
    | cons c s =>
      rw [unifyLines, unifyFrom, Bool.false_and, if_neg Bool.false_ne_true] at h
      split at h <;> cases h
  lineFeed := rfl
  cut s c t h := unifyFrom_cut false s h t
  mem s c hc h := by
    rcases mem_unifyFrom h with rfl | h
    · cases hc
    · exact h.1

end Text
end AnalysisProject
