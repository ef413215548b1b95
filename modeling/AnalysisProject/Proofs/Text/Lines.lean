import AnalysisProject.Proofs.Markup.Spelling
import AnalysisProject.Proofs.Text.Seam
import Mathlib.Data.List.Basic
import Mathlib.Data.List.TakeWhile

namespace AnalysisProject

open CodeUnit

namespace CodeUnit

def endsLine (c : CodeUnit) : Bool := c == lineFeed || c == carriageReturn

theorem endsLine_cases (c : CodeUnit) : c = lineFeed ∨ c = carriageReturn ∨ c.endsLine = false := by
  rw [endsLine, Bool.or_eq_false_iff, beq_eq_false_iff_ne, beq_eq_false_iff_ne]
  by_cases hf : c = lineFeed
  · exact .inl hf
  · by_cases hr : c = carriageReturn
    · exact .inr (.inl hr)
    · exact .inr (.inr ⟨hf, hr⟩)

theorem isXmlSpace_of_endsLine {c : CodeUnit} (h : c.endsLine = true) : c.isXmlSpace = true := by
  rw [endsLine, Bool.or_eq_true, beq_iff_eq, beq_iff_eq] at h
  rcases h with rfl | rfl <;> rfl

theorem isBlank_of_endsLine {c : CodeUnit} (h : c.endsLine = true) : c.isBlank = true :=
  isBlank_of_isXmlSpace (isXmlSpace_of_endsLine h)

theorem ne_of_endsLine {c d : CodeUnit} (hc : c.endsLine = false) (hd : d.endsLine = true) :
    c ≠ d := by
  rintro rfl
  exact Bool.false_ne_true (hc.symm.trans hd)

end CodeUnit

namespace Text

def IsInLine (s : Text) : Prop := ∀ c ∈ s, c.endsLine = false

instance (s : Text) : Decidable s.IsInLine :=
  inferInstanceAs (Decidable (∀ c ∈ s, c.endsLine = false))

variable (afterReturn : Bool) (s : Text)

@[simp] theorem unifyFrom_nil : unifyFrom afterReturn [] = [] := rfl

@[simp] theorem unifyFrom_carriageReturn :
    unifyFrom afterReturn (carriageReturn :: s) = lineFeed :: unifyFrom true s := by
  rw [unifyFrom, if_pos rfl]

@[simp] theorem unifyFrom_false_lineFeed :
    unifyFrom false (lineFeed :: s) = lineFeed :: unifyFrom false s := by
  rw [unifyFrom, if_neg (by decide), Bool.false_and, if_neg Bool.false_ne_true]

@[simp] theorem unifyFrom_true_lineFeed : unifyFrom true (lineFeed :: s) = unifyFrom false s := by
  rw [unifyFrom, if_neg (by decide), if_pos (by decide)]

variable {s}

@[simp] theorem unifyFrom_cons {c : CodeUnit} (h : c.endsLine = false) :
    unifyFrom afterReturn (c :: s) = c :: unifyFrom false s := by
  have hr := ne_of_endsLine h (d := carriageReturn) rfl
  have hf := ne_of_endsLine h (d := lineFeed) rfl
  rw [unifyFrom, if_neg hr, if_neg (by simp [hf])]

/-- What passes over a line feed passes over every line end, however it is spelled. -/
theorem exists_unifyFrom_endsLine {β : Type} {f : Text → β} (hf : ∀ t, f (lineFeed :: t) = f t)
    {c : CodeUnit} (hc : c.endsLine = true) (s : Text) : ∃ flag,
      f (unifyFrom afterReturn (c :: s)) = f (unifyFrom flag s) := by
  rcases endsLine_cases c with rfl | rfl | hn
  · cases afterReturn with
    | true => exact ⟨false, by rw [unifyFrom_true_lineFeed]⟩
    | false => exact ⟨false, by rw [unifyFrom_false_lineFeed, hf]⟩
  · exact ⟨true, by rw [unifyFrom_carriageReturn, hf]⟩
  · exact absurd (hn.symm.trans hc) Bool.false_ne_true

theorem unifyFrom_append {p : Text} (hp : p.IsInLine) (hne : p ≠ []) :
    unifyFrom afterReturn (p ++ s) = p ++ s.unifyLines := by
  induction p generalizing afterReturn with
  | nil => exact absurd rfl hne
  | cons c p ih =>
    have hc := hp c (List.mem_cons_self ..)
    rw [List.cons_append, unifyFrom_cons _ hc, List.cons_append]
    cases p with
    | nil => rfl
    | cons d p => rw [ih _ (fun e he ↦ hp e (List.mem_cons_of_mem c he)) (List.cons_ne_nil d p)]

theorem unifyLines_append {p : Text} (hp : p.IsInLine) (s : Text) :
    (p ++ s).unifyLines = p ++ s.unifyLines := by
  cases p with
  | nil => rfl
  | cons c p => exact unifyFrom_append false hp (List.cons_ne_nil c p)

theorem unifyLines_unifyLines (s : Text) : s.unifyLines.unifyLines = s.unifyLines :=
  unifyLines_eq_self (carriageReturn_not_mem_unifyLines s)

theorem isEmpty_unifyLines (s : Text) : s.unifyLines.isEmpty = s.isEmpty :=
  unifyLines_seamless.isEmpty_eq s

theorem length_unifyFrom_le (s : Text) : (unifyFrom afterReturn s).length ≤ s.length := by
  induction s generalizing afterReturn with
  | nil => exact Nat.le_refl _
  | cons c s ih =>
    rw [unifyFrom, List.length_cons]
    split
    · exact Nat.succ_le_succ (ih true)
    · split
      · exact Nat.le_succ_of_le (ih false)
      · exact Nat.succ_le_succ (ih false)

section Pattern

variable {p : Text} (hp : p.IsInLine)

include hp

theorem startsWith_unifyLines (s : Text) : startsWith p s.unifyLines = startsWith p s := by
  induction p generalizing s with
  | nil => rfl
  | cons c p ih =>
    have hc := hp c (List.mem_cons_self ..)
    cases s with
    | nil => rfl
    | cons d s =>
      rcases endsLine_cases d with rfl | rfl | hd
      · rw [unifyLines, unifyFrom_false_lineFeed, startsWith_cons, startsWith_cons,
          beq_eq_false_iff_ne.mpr (ne_of_endsLine hc rfl), Bool.false_and, Bool.false_and]
      · rw [unifyLines, unifyFrom_carriageReturn, startsWith_cons, startsWith_cons,
          beq_eq_false_iff_ne.mpr (ne_of_endsLine hc rfl),
          beq_eq_false_iff_ne.mpr (ne_of_endsLine hc rfl),
          Bool.false_and, Bool.false_and]
      · rw [unifyLines, unifyFrom_cons false hd, startsWith_cons, startsWith_cons]
        exact congrArg _ (ih (fun e he ↦ hp e (List.mem_cons_of_mem c he)) s)

theorem drop_unifyLines {s : Text} (h : startsWith p s = true) :
    s.unifyLines.drop p.length = unifyLines (s.drop p.length) := by
  obtain ⟨t, rfl⟩ := List.isPrefixOf_iff_prefix.mp h
  rw [unifyLines_append hp, List.drop_left, List.drop_left]

theorem splitFirst?_unifyFrom (hne : p ≠ []) (s : Text) :
    splitFirst? p (unifyFrom afterReturn s) =
      (splitFirst? p s).map fun (before, after) ↦
        (unifyFrom afterReturn before, after.unifyLines) := by
  obtain ⟨c, p, rfl⟩ := List.exists_cons_of_ne_nil hne
  have hc := hp c (List.mem_cons_self ..)
  have hstart {d : CodeUnit} (hd : d.endsLine = true) (s : Text) :
      startsWith (c :: p) (d :: s) = false := by
    rw [startsWith_cons, beq_eq_false_iff_ne.mpr (ne_of_endsLine hc hd), Bool.false_and]
  induction s generalizing afterReturn with
  | nil => rfl
  | cons d s ih =>
    rcases endsLine_cases d with rfl | rfl | hd
    · rw [splitFirst?, hstart rfl, if_neg Bool.false_ne_true]
      cases afterReturn with
      | true =>
        rw [unifyFrom_true_lineFeed, ih, Option.map_map]
        rfl
      | false =>
        rw [unifyFrom_false_lineFeed, splitFirst?, hstart rfl, if_neg Bool.false_ne_true, ih,
          Option.map_map, Option.map_map]
        rfl
    · rw [unifyFrom_carriageReturn, splitFirst?, splitFirst?, hstart rfl, hstart rfl,
        if_neg Bool.false_ne_true, if_neg Bool.false_ne_true, ih, Option.map_map, Option.map_map]
      refine congrArg (Option.map · _) (funext fun split ↦ ?_)
      exact congrArg (·, split.2.unifyLines) (unifyFrom_carriageReturn afterReturn split.1).symm
    · have hs : startsWith (c :: p) (d :: unifyFrom false s) = startsWith (c :: p) (d :: s) := by
        rw [← unifyFrom_cons false hd]
        exact startsWith_unifyLines hp (d :: s)
      rw [unifyFrom_cons _ hd, splitFirst?, splitFirst?, hs]
      by_cases h : startsWith (c :: p) (d :: s) = true
      · have hdrop := drop_unifyLines hp h
        rw [unifyLines, unifyFrom_cons false hd] at hdrop
        rw [if_pos h, if_pos h, hdrop]
        rfl
      · rw [if_neg h, if_neg h, ih, Option.map_map, Option.map_map]
        refine congrArg (Option.map · _) (funext fun split ↦ ?_)
        exact congrArg (·, split.2.unifyLines) (unifyFrom_cons afterReturn hd).symm

/-- What is found once the line ends of a text are unified is there before. -/
theorem exists_of_splitFirst?_unifyLines (hne : p ≠ []) {s before after : Text}
    (h : splitFirst? p s.unifyLines = some (before, after)) :
    ∃ before' after', splitFirst? p s = some (before', after') ∧ after = after'.unifyLines := by
  rw [unifyLines, splitFirst?_unifyFrom false hp hne] at h
  obtain ⟨⟨before', after'⟩, hs, he⟩ := Option.map_eq_some_iff.mp h
  cases he
  exact ⟨before', after', hs, rfl⟩

theorem afterOrEnd_unifyFrom (hne : p ≠ []) (s : Text) :
    afterOrEnd p (unifyFrom afterReturn s) = (afterOrEnd p s).unifyLines := by
  rw [afterOrEnd, after?, splitFirst?_unifyFrom afterReturn hp hne, afterOrEnd, after?]
  cases splitFirst? p s <;> rfl

end Pattern

section While

variable {q : CodeUnit → Bool} (s : Text)

theorem takeWhile_unifyLines (hq : ∀ c, q c = true → c.endsLine = false) :
    s.unifyLines.takeWhile q = s.takeWhile q ∧ s.unifyLines.dropWhile q =
      unifyLines (s.dropWhile q) := by
  have hline {c : CodeUnit} (hc : c.endsLine = true) : q c = false :=
    Bool.eq_false_iff.mpr fun h ↦ Bool.false_ne_true ((hq c h).symm.trans hc)
  induction s with
  | nil => exact ⟨rfl, rfl⟩
  | cons c s ih =>
    rcases endsLine_cases c with rfl | rfl | hc
    · rw [unifyLines, unifyFrom_false_lineFeed, List.takeWhile_cons, List.takeWhile_cons,
        List.dropWhile_cons, List.dropWhile_cons, hline rfl]
      simp [unifyLines]
    · rw [unifyLines, unifyFrom_carriageReturn, List.takeWhile_cons, List.takeWhile_cons,
        List.dropWhile_cons, List.dropWhile_cons, hline rfl, hline rfl]
      simp [unifyLines]
    · rw [unifyLines, unifyFrom_cons false hc, List.takeWhile_cons, List.takeWhile_cons,
        List.dropWhile_cons, List.dropWhile_cons]
      cases h : q c with
      | true => exact ⟨congrArg (c :: ·) ih.1, ih.2⟩
      | false => simp [unifyLines, hc]

/-- Where all line ends are dropped, it makes no difference how they are spelled. -/
theorem dropWhile_unifyFrom (hq : ∀ c, c.endsLine = true → q c = true) :
    (unifyFrom afterReturn s).dropWhile q = unifyLines (s.dropWhile q) := by
  induction s generalizing afterReturn with
  | nil => rfl
  | cons c s ih =>
    cases hc : c.endsLine with
    | true =>
      have hf (t : Text) : (lineFeed :: t).dropWhile q = t.dropWhile q := by
        rw [List.dropWhile_cons, if_pos (hq _ rfl)]
      obtain ⟨flag, h⟩ := exists_unifyFrom_endsLine afterReturn hf hc s
      rw [h, ih, List.dropWhile_cons, if_pos (hq c hc)]
    | false =>
      rw [unifyFrom_cons _ hc, List.dropWhile_cons, List.dropWhile_cons]
      cases h : q c with
      | true => rw [if_pos rfl, if_pos rfl, ih]
      | false =>
        rw [if_neg Bool.false_ne_true, if_neg Bool.false_ne_true, unifyLines, unifyFrom_cons _ hc]

theorem takeWhile_unifyFrom (hq : ∀ c, c.endsLine = true → q c = true) :
    (unifyFrom afterReturn s).takeWhile q = unifyFrom afterReturn (s.takeWhile q) := by
  induction s generalizing afterReturn with
  | nil => rfl
  | cons c s ih =>
    have hf (t : Text) : (lineFeed :: t).takeWhile q = lineFeed :: t.takeWhile q :=
      List.takeWhile_cons_of_pos (hq lineFeed rfl)
    rcases endsLine_cases c with rfl | rfl | hc
    · cases afterReturn with
      | true => rw [unifyFrom_true_lineFeed, ih, hf, unifyFrom_true_lineFeed]
      | false => rw [unifyFrom_false_lineFeed, hf, hf, ih, unifyFrom_false_lineFeed]
    · rw [unifyFrom_carriageReturn, hf, ih, List.takeWhile_cons_of_pos (hq carriageReturn rfl),
        unifyFrom_carriageReturn]
    · rw [unifyFrom_cons _ hc, List.takeWhile_cons, List.takeWhile_cons]
      cases h : q c with
      | true => rw [if_pos rfl, if_pos rfl, ih, unifyFrom_cons _ hc]
      | false => rw [if_neg Bool.false_ne_true, if_neg Bool.false_ne_true, unifyFrom_nil]

theorem all_unifyLines (hq : ∀ c, c.endsLine = true → q c = true) :
    s.unifyLines.all q = s.all q := by
  have hnil (t : Text) : t.all q = (t.dropWhile q).isEmpty := by
    rw [Bool.eq_iff_iff, List.isEmpty_iff, List.dropWhile_eq_nil_iff, List.all_eq_true]
  rw [hnil, hnil, unifyLines, dropWhile_unifyFrom false s hq, isEmpty_unifyLines]

theorem trimStart_unifyFrom : trimStart (unifyFrom afterReturn s) = s.trimStart.unifyLines :=
  dropWhile_unifyFrom afterReturn s fun _ hc ↦ isBlank_of_endsLine hc

end While

theorem endsIn_cons (c d : CodeUnit) (s : Text) :
    endsIn c (d :: s) = if s.isEmpty then d == c else endsIn c s := by
  cases s with
  | nil => simp [endsIn]
  | cons e s => rw [endsIn, List.getLast?_cons_cons]; rfl

theorem endsIn_cons_of_ne {c d : CodeUnit} (h : d ≠ c) (s : Text) :
    endsIn c (d :: s) = endsIn c s := by
  rw [endsIn_cons, beq_eq_false_iff_ne.mpr h]
  cases s <;> rfl

theorem endsIn_unifyFrom {c : CodeUnit} (h : c.endsLine = false) (s : Text) :
    endsIn c (unifyFrom afterReturn s) = endsIn c s := by
  induction s generalizing afterReturn with
  | nil => rfl
  | cons d s ih =>
    cases hd : d.endsLine with
    | true =>
      have hf (t : Text) : endsIn c (lineFeed :: t) = endsIn c t :=
        endsIn_cons_of_ne (ne_of_endsLine h rfl).symm t
      obtain ⟨flag, hs⟩ := exists_unifyFrom_endsLine afterReturn hf hd s
      rw [hs, ih, endsIn_cons_of_ne (ne_of_endsLine h hd).symm]
    | false =>
      rw [unifyFrom_cons _ hd, endsIn_cons, endsIn_cons, ih, ← unifyLines, isEmpty_unifyLines]

theorem eq_append_of_endsIn {c : CodeUnit} {s : Text} (h : endsIn c s = true) :
    s = s.dropLast ++ [c] := by
  rw [endsIn, beq_iff_eq] at h
  exact (List.dropLast_append_getLast? c h).symm

theorem dropLast_unifyLines {c : CodeUnit} (hc : c.isSeam = true) {s : Text}
    (h : endsIn c s = true) :
    s.unifyLines.dropLast = unifyLines s.dropLast := by
  rw [eq_append_of_endsIn h, unifyLines, unifyFrom_cut false s.dropLast hc [], List.dropLast_concat]
  exact List.dropLast_concat

theorem isBlank_of_trimStart {s t : Text} {c : CodeUnit} (h : s.trimStart = c :: t) :
    c.isBlank = false := by
  have hn := List.head?_dropWhile_not isBlank s
  rw [← trimStart, h] at hn
  simpa using hn

theorem isEmpty_trim (s : Text) : s.trim.isEmpty = s.trimStart.isEmpty := by
  rw [trim]
  cases hs : s.trimStart with
  | nil => rfl
  | cons c t =>
    have hc : c.isBlank = false := isBlank_of_trimStart hs
    rw [trimEnd, List.reverse_cons, ← trimStart, trimStart_concat hc, List.reverse_append]
    rfl

end Text
end AnalysisProject
