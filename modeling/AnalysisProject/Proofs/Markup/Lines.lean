import AnalysisProject.Proofs.Markup.Acceptance
import AnalysisProject.Proofs.Markup.Rest
import AnalysisProject.Proofs.Text.Lines
import Mathlib.Data.List.Infix
import Mathlib.Data.List.Forall2

namespace AnalysisProject

open CodeUnit Text

namespace Markup

section Scanners

variable (afterReturn : Bool)

theorem spanTag_endsLine {q : Option CodeUnit} (hq : ∀ d ∈ q, d.endsLine = false) {c : CodeUnit}
    (hc : c.endsLine = true) (s : Text) : spanTag id q (c :: s) = (spanTag id q s).push c := by
  cases q with
  | none =>
    have hg : c ≠ greater := (ne_of_endsLine rfl hc).symm
    have hn : c.isQuote = false := Bool.eq_false_iff.mpr fun h ↦
      Bool.false_ne_true ((isBlank_of_isQuote h).symm.trans (isBlank_of_endsLine hc))
    rw [spanTag, if_neg hg, hn, if_neg Bool.false_ne_true]
    rfl
  | some d => rw [spanTag, if_neg (ne_of_endsLine (hq d rfl) hc).symm]

theorem endsLine_of_isQuote {c : CodeUnit} (h : c.isQuote = true) : c.endsLine = false := by
  cases hc : c.endsLine with
  | false => rfl
  | true =>
    exact absurd ((isBlank_of_isQuote h).symm.trans (isBlank_of_endsLine hc)) Bool.false_ne_true

theorem spanTag_unifyFrom {q : Option CodeUnit} (hq : ∀ d ∈ q, d.endsLine = false) (s : Text) :
    spanTag id q (unifyFrom afterReturn s) =
      ⟨unifyFrom afterReturn (spanTag id q s).inside, (spanTag id q s).openQuote,
        unifyLines (spanTag id q s).rest⟩ := by
  induction s generalizing q afterReturn with
  | nil => cases q <;> rfl
  | cons c s ih =>
    rcases endsLine_cases c with rfl | rfl | hc
    · rw [spanTag_endsLine hq rfl]
      cases afterReturn with
      | true =>
        rw [unifyFrom_true_lineFeed, ih false hq, TagSpan.push, unifyFrom_true_lineFeed]
      | false =>
        rw [unifyFrom_false_lineFeed, spanTag_endsLine hq rfl, ih false hq, TagSpan.push,
          TagSpan.push, unifyFrom_false_lineFeed]
    · rw [unifyFrom_carriageReturn, spanTag_endsLine hq rfl, spanTag_endsLine hq rfl, ih true hq,
        TagSpan.push, TagSpan.push, unifyFrom_carriageReturn]
    · rw [unifyFrom_cons _ hc]
      cases q with
      | some q =>
        have hn : ∀ d ∈ if c = q then none else some q, d.endsLine = false := by
          intro d hd
          split at hd
          · cases hd
          · exact hq d hd
        rw [spanTag, spanTag, ih false hn, TagSpan.push, TagSpan.push, unifyFrom_cons _ hc]
      | none =>
        rw [spanTag, spanTag]
        by_cases hg : c = greater
        · rw [if_pos hg, if_pos hg, unifyLines, unifyFrom_cons _ hc]
          rfl
        · rw [if_neg hg, if_neg hg]
          by_cases hs : c.isQuote = true
          · rw [if_pos hs, if_pos hs, ih false fun d hd ↦ Option.some.inj hd ▸ hc, TagSpan.push,
              TagSpan.push, unifyFrom_cons _ hc]
          · rw [if_neg hs, if_neg hs, ih false fun d hd ↦ absurd hd (Option.not_mem_none d),
              TagSpan.push, TagSpan.push, id, unifyFrom_cons _ hc]

namespace Check

theorem skipBrackets_endsLine (depth : Nat) {c : CodeUnit} (hc : c.endsLine = true) (s : Text) :
    skipBrackets depth (c :: s) = skipBrackets depth s := by
  rw [skipBrackets, if_neg (ne_of_endsLine rfl hc).symm, if_neg (ne_of_endsLine rfl hc).symm]

theorem skipBrackets_unifyFrom (depth : Nat) (s : Text) :
    skipBrackets depth (unifyFrom afterReturn s) = unifyLines (skipBrackets depth s) := by
  induction s generalizing afterReturn depth with
  | nil => rfl
  | cons c s ih =>
    cases hc : c.endsLine with
    | true =>
      obtain ⟨flag, h⟩ :=
        exists_unifyFrom_endsLine afterReturn (skipBrackets_endsLine depth rfl) hc s
      rw [h, ih, skipBrackets_endsLine depth hc]
    | false =>
      rw [unifyFrom_cons _ hc, skipBrackets, skipBrackets, ih, ih, ih]
      split
      · rfl
      · split
        · split <;> rfl
        · rfl

theorem skipNamed_unifyLines (n : Nat) (s : Text) :
    skipNamed n s.unifyLines = (skipNamed n s).map unifyLines := by
  induction s generalizing n with
  | nil => rfl
  | cons c s ih =>
    have hline {d : CodeUnit} (hd : d = lineFeed ∨ d = carriageReturn) (t : Text) :
        skipNamed n (d :: t) = none := by
      rcases hd with rfl | rfl <;> rfl
    rcases endsLine_cases c with rfl | rfl | hc
    · rw [unifyLines, unifyFrom_false_lineFeed, hline (.inl rfl), hline (.inl rfl), Option.map_none]
    · rw [unifyLines, unifyFrom_carriageReturn, hline (.inl rfl), hline (.inr rfl), Option.map_none]
    · rw [unifyLines, unifyFrom_cons _ hc, skipNamed, skipNamed, ← unifyLines, ih]
      split
      · rfl
      · split <;> rfl

theorem skipNumeric_unifyLines {p : CodeUnit → Bool} (hp : ∀ c, p c = true → c.endsLine = false)
    (s : Text) :
    skipNumeric p s.unifyLines = (skipNumeric p s).map unifyLines := by
  have hs : (";" : Text).IsInLine := by decide
  rw [skipNumeric, skipNumeric, (takeWhile_unifyLines s hp).2, startsWith_unifyLines hs]
  split
  · next h => exact congrArg some (drop_unifyLines hs h)
  · rfl

theorem endsLine_of_isHexDigit {c : CodeUnit} (h : c.isHexDigit = true) : c.endsLine = false := by
  rcases endsLine_cases c with rfl | rfl | hc
  · cases h
  · cases h
  · exact hc

theorem endsLine_of_isDigit {c : CodeUnit} (h : c.isDigit = true) : c.endsLine = false :=
  endsLine_of_isHexDigit (by simp [isHexDigit, h])

theorem skipReference?_unifyLines (s : Text) :
    skipReference? s.unifyLines = (skipReference? s).map unifyLines := by
  have hend : (";" : Text).IsInLine := by decide
  have hhex : ("#x" : Text).IsInLine := by decide
  have hnum : ("#" : Text).IsInLine := by decide
  rw [skipReference?, skipReference?, startsWith_unifyLines hend, startsWith_unifyLines hhex,
    startsWith_unifyLines hnum]
  split
  · rfl
  · split
    · next h =>
        exact (congrArg _ (drop_unifyLines hhex h)).trans
          (skipNumeric_unifyLines (fun _ ↦ endsLine_of_isHexDigit) _)
    · split
      · next h =>
          exact (congrArg _ (drop_unifyLines hnum h)).trans
            (skipNumeric_unifyLines (fun _ ↦ endsLine_of_isDigit) _)
      · exact skipNamed_unifyLines 20 s

/-- A text that is longer than `n` as it stands, and not with its line ends unified. -/
def Shrinks (opening : Text) (n : Nat) (s : Text) : Prop :=
  startsWith opening s = true ∧ n < s.length ∧ s.unifyLines.length ≤ n

instance (opening : Text) (n : Nat) (s : Text) : Decidable (Shrinks opening n s) :=
  inferInstanceAs (Decidable (_ ∧ _ ∧ _))

/-- At the end of the text stands a comment or a character section that is not ended, and its length
falls to the least one or below when line ends are unified. -/
def BreaksOff (s : Text) : Prop := ∃ t ∈ s.tails, Shrinks "<!--" 6 t ∨ Shrinks "<![CDATA[" 10 t

instance (s : Text) : Decidable (BreaksOff s) := inferInstanceAs (Decidable (∃ t ∈ s.tails, _))

theorem not_breaksOff_of_suffix {s t : Text} (h : ¬ BreaksOff s) (ht : t <:+ s) :
    ¬ BreaksOff t := by
  rintro ⟨u, hu, hs⟩
  exact h ⟨u, (List.mem_tails _ _).mpr (((List.mem_tails _ _).mp hu).trans ht), hs⟩

theorem isLong_unifyLines {p : Text} (hp : p.IsInLine) {n : Nat} {s : Text}
    (h : startsWith p s = true → n < s.length → n < s.unifyLines.length) :
    (startsWith p s.unifyLines && n < s.unifyLines.length) = (startsWith p s && n < s.length) := by
  rw [startsWith_unifyLines hp]
  cases hs : startsWith p s with
  | false => rfl
  | true =>
    have hle : s.unifyLines.length ≤ s.length := length_unifyFrom_le false s
    rw [Bool.true_and, Bool.true_and, decide_eq_decide]
    exact ⟨fun hn ↦ Nat.lt_of_lt_of_le hn hle, h hs⟩

theorem lt_length_of_not_shrinks {s : Text} (h : ¬ BreaksOff (less :: exclamation :: s)) :
    (startsWith "--" s = true → 4 < s.length → 4 < s.unifyLines.length) ∧
      (startsWith "[CDATA[" s = true → 8 < s.length → 8 < s.unifyLines.length) := by
  have hu : unifyLines (less :: exclamation :: s) = less :: exclamation :: s.unifyLines := rfl
  have hself : less :: exclamation :: s ∈ List.tails (less :: exclamation :: s) :=
    (List.mem_tails _ _).mpr (List.suffix_refl _)
  constructor
  · intro hs hl
    by_contra hn
    refine h ⟨_, hself, .inl ⟨hs, ?_, ?_⟩⟩
    · exact Nat.add_lt_add_right hl 2
    · rw [hu]
      exact Nat.add_le_add_right (Nat.le_of_not_lt hn) 2
  · intro hs hl
    by_contra hn
    refine h ⟨_, hself, .inr ⟨hs, ?_, ?_⟩⟩
    · exact Nat.add_lt_add_right hl 2
    · rw [hu]
      exact Nat.add_le_add_right (Nat.le_of_not_lt hn) 2

theorem skipExclamation_unifyLines {s : Text} (h : ¬ BreaksOff (less :: exclamation :: s)) :
    skipExclamation s.unifyLines = unifyLines (skipExclamation s) := by
  have hcomment : ("--" : Text).IsInLine := by decide
  have htype : ("DOCTYPE" : Text).IsInLine := by decide
  have hsection : ("[CDATA[" : Text).IsInLine := by decide
  have hdoctype : startsWith "DOCTYPE" s = true → 7 < s.length → 7 < s.unifyLines.length := by
    intro hs hl
    obtain ⟨t, rfl⟩ := List.isPrefixOf_iff_prefix.mp hs
    have ht : t ≠ [] := by
      rintro rfl
      exact absurd hl (by decide)
    have hu : unifyLines t ≠ [] := mt (unifyLines_seamless.eq_nil t) ht
    rw [unifyLines_append htype, List.length_append]
    exact Nat.lt_add_of_pos_right (List.length_pos_iff.mpr hu)
  rw [skipExclamation, skipExclamation, isLong_unifyLines hcomment (lt_length_of_not_shrinks h).1,
    isLong_unifyLines htype hdoctype, isLong_unifyLines hsection (lt_length_of_not_shrinks h).2]
  split
  · next hs =>
    have hd : s.unifyLines.drop 2 = unifyLines (s.drop 2) :=
      drop_unifyLines hcomment (Bool.and_eq_true_iff.mp hs).1
    rw [hd, unifyLines, afterOrEnd_unifyFrom false (by decide) (by decide)]
  · split
    · next hs =>
      have hd : s.unifyLines.drop 7 = unifyLines (s.drop 7) :=
        drop_unifyLines htype (Bool.and_eq_true_iff.mp hs).1
      rw [hd, unifyLines, skipBrackets_unifyFrom]
    · split
      · next hs =>
        have hd : s.unifyLines.drop 7 = unifyLines (s.drop 7) :=
          drop_unifyLines hsection (Bool.and_eq_true_iff.mp hs).1
        rw [hd, unifyLines, afterOrEnd_unifyFrom false (by decide) (by decide)]
      · rfl

/-- Two results that differ at most in where a flaw is found and how it is worded. -/
inductive Agree {α β : Type} (R : α → β → Prop) : Except Failure α → Except Failure β → Prop
  | ok {a : α} {b : β} : R a b → Agree R (.ok a) (.ok b)
  | refused (r r' : Refusal) : Agree R (.error (.refused r)) (.error (.refused r'))
  | fault (fault : Fault) : Agree R (.error (.fault fault)) (.error (.fault fault))

theorem Agree.bind {α β γ δ : Type} {R : α → β → Prop} {S : γ → δ → Prop} {e : Except Failure α}
    {e' : Except Failure β} {f : α → Except Failure γ} {f' : β → Except Failure δ}
    (h : Agree R e e') (hf : ∀ a b, e = .ok a → R a b → Agree S (f a) (f' b)) :
    Agree S (e >>= f) (e' >>= f') := by
  cases h with
  | ok h => exact hf _ _ rfl h
  | refused r r' => exact .refused r r'
  | fault fault => exact .fault fault

theorem Agree.ite {α β : Type} {R : α → β → Prop} {c : Prop} [Decidable c]
    {e₁ e₂ : Except Failure α} {e₁' e₂' : Except Failure β} (h₁ : c → Agree R e₁ e₁')
    (h₂ : ¬ c → Agree R e₂ e₂') :
    Agree R (if c then e₁ else e₂) (if c then e₁' else e₂') := by
  by_cases h : c
  · rw [if_pos h, if_pos h]
    exact h₁ h
  · rw [if_neg h, if_neg h]
    exact h₂ h

theorem agree_refuse {α β : Type} {R : α → β → Prop} (flaw flaw' : Flaw) (rest rest' : Text) :
    Agree R (refuse flaw rest) (refuse flaw' rest') := .refused _ _

def Follows (rest rest' : Option Text) : Prop := rest' = rest.map unifyLines

theorem skipContent_unifyFrom (isAfterRoot : Bool) {s : Text} (h : ¬ BreaksOff s) :
    Agree Follows (skipContent isAfterRoot s)
      (skipContent isAfterRoot (unifyFrom afterReturn s)) := by
  have hx : ("!" : Text).IsInLine := by decide
  have hq : ("?" : Text).IsInLine := by decide
  fun_induction skipContent isAfterRoot s generalizing afterReturn with
  | case1 =>
    rw [unifyFrom_nil, skipContent]
    exact .ok rfl
  | case2 s hs _ ih =>
    obtain ⟨t, rfl⟩ := eq_cons_of_startsWith (c := exclamation) hs
    have ht : ¬ BreaksOff (skipExclamation t) :=
      not_breaksOff_of_suffix h
        ((skipExclamation_suffix t).trans (List.suffix_append [less, exclamation] t))
    rw [unifyFrom_cons _ (by rfl), unifyFrom_cons _ (by rfl), skipContent_exclamation, ← unifyLines,
      skipExclamation_unifyLines h]
    exact ih false ht
  | case3 s hs hs' _ ih =>
    obtain ⟨t, rfl⟩ := eq_cons_of_startsWith (c := question) hs'
    have ht : ¬ BreaksOff (afterOrEnd "?>" (question :: t)) :=
      not_breaksOff_of_suffix h ((afterOrEnd_suffix _ _).trans (List.suffix_cons less _))
    rw [unifyFrom_cons _ (by rfl), unifyFrom_cons _ (by rfl), skipContent_question,
      ← unifyFrom_cons false (c := question) (by rfl),
      afterOrEnd_unifyFrom false (by decide) (by decide)]
    exact ih false ht
  | case4 s hs hs' =>
    rw [unifyFrom_cons _ (by rfl), skipContent, if_pos rfl, ← unifyLines,
      startsWith_unifyLines hx, if_neg hs, startsWith_unifyLines hq, if_neg hs']
    exact .ok rfl
  | case5 s t ht _ _ ih =>
    have hr : skipReference? (unifyFrom false s) = some (unifyLines t) := by
      rw [← unifyLines, skipReference?_unifyLines, ht, Option.map_some]
    have hn : ¬ BreaksOff t :=
      not_breaksOff_of_suffix h ((skipReference?_suffix ht).trans (List.suffix_cons _ s))
    rw [unifyFrom_cons _ (by rfl), skipContent, if_neg (by decide), if_pos rfl]
    split
    · next t' ht' =>
      cases hr.symm.trans ht'
      exact ih false hn
    · next hn => cases hr.symm.trans hn
  | case6 s hs _ =>
    have hr : skipReference? (unifyFrom false s) = none := by
      rw [← unifyLines, skipReference?_unifyLines, hs, Option.map_none]
    rw [unifyFrom_cons _ (by rfl), skipContent, if_neg (by decide), if_pos rfl]
    split
    · next ht => cases hr.symm.trans ht
    · exact agree_refuse _ _ _ _
  | case7 c s hl ha hafter =>
    have hc : c.endsLine = false := by
      cases hc : c.endsLine with
      | false => rfl
      | true =>
        rw [isXmlSpace_of_endsLine hc, Bool.not_true, Bool.and_false] at hafter
        exact absurd hafter Bool.false_ne_true
    rw [unifyFrom_cons _ hc, skipContent, if_neg hl, if_neg ha, if_pos hafter]
    exact agree_refuse _ _ _ _
  | case8 c s hl ha hafter ih =>
    have hs : ¬ BreaksOff s := not_breaksOff_of_suffix h (List.suffix_cons c s)
    cases hc : c.endsLine with
    | true =>
      obtain ⟨flag, hf⟩ :=
        exists_unifyFrom_endsLine afterReturn (skipContent_xmlSpace rfl isAfterRoot) hc s
      rw [hf]
      exact ih flag hs
    | false =>
      rw [unifyFrom_cons _ hc, skipContent, if_neg hl, if_neg ha, if_neg hafter]
      exact ih false hs

theorem skipProlog_unifyFrom {isStart : Bool} (hb : afterReturn = true → isStart = false) {s : Text}
    (h : ¬ BreaksOff s) :
    Agree Follows (skipProlog isStart s) (skipProlog isStart (unifyFrom afterReturn s)) := by
  have hx : ("!" : Text).IsInLine := by decide
  have hq : ("?" : Text).IsInLine := by decide
  have hshort : ("?xml?" : Text).IsInLine := by decide
  have hlong : ("?xml " : Text).IsInLine := by decide
  fun_induction skipProlog isStart s generalizing afterReturn with
  | case1 =>
    rw [unifyFrom_nil, skipProlog]
    exact .ok rfl
  | case2 isStart s hs _ ih =>
    obtain ⟨t, rfl⟩ := eq_cons_of_startsWith (c := exclamation) hs
    have ht : ¬ BreaksOff (skipExclamation t) :=
      not_breaksOff_of_suffix h
        ((skipExclamation_suffix t).trans (List.suffix_append [less, exclamation] t))
    rw [unifyFrom_cons _ (by rfl), unifyFrom_cons _ (by rfl), skipProlog_exclamation, ← unifyLines,
      skipExclamation_unifyLines h]
    exact ih false (fun _ ↦ rfl) ht
  | case3 isStart s hs hs' hd =>
    rw [unifyFrom_cons _ (by rfl), skipProlog, if_pos rfl, ← unifyLines,
      startsWith_unifyLines hx, if_neg hs, startsWith_unifyLines hq, if_pos hs',
      startsWith_unifyLines hshort, startsWith_unifyLines hlong, if_pos hd]
    exact agree_refuse _ _ _ _
  | case4 isStart s hs hs' hd _ ih =>
    have hdrop : (unifyLines s).drop 1 = unifyLines (s.drop 1) := drop_unifyLines hq hs'
    have ht : ¬ BreaksOff (afterOrEnd "?>" (s.drop 1)) := by
      refine not_breaksOff_of_suffix h ((afterOrEnd_suffix _ _).trans ?_)
      exact (List.drop_suffix 1 s).trans (List.suffix_cons less s)
    rw [unifyFrom_cons _ (by rfl), skipProlog, if_pos rfl, ← unifyLines,
      startsWith_unifyLines hx, if_neg hs, startsWith_unifyLines hq, if_pos hs',
      startsWith_unifyLines hshort, startsWith_unifyLines hlong, if_neg hd, hdrop,
      unifyLines, afterOrEnd_unifyFrom false (by decide) (by decide)]
    exact ih false (fun _ ↦ rfl) ht
  | case5 isStart s hs hs' =>
    rw [unifyFrom_cons _ (by rfl), skipProlog, if_pos rfl, ← unifyLines,
      startsWith_unifyLines hx, if_neg hs, startsWith_unifyLines hq, if_neg hs']
    exact .ok rfl
  | case6 isStart c s hl hspace ih =>
    have hs : ¬ BreaksOff s := not_breaksOff_of_suffix h (List.suffix_cons c s)
    rcases endsLine_cases c with rfl | rfl | hc
    · cases afterReturn with
      | true =>
        rw [unifyFrom_true_lineFeed, hb rfl]
        exact ih false (fun _ ↦ rfl) hs
      | false =>
        rw [unifyFrom_false_lineFeed, skipProlog_xmlSpace rfl]
        exact ih false (fun _ ↦ rfl) hs
    · rw [unifyFrom_carriageReturn, skipProlog_xmlSpace rfl]
      exact ih true (fun _ ↦ rfl) hs
    · rw [unifyFrom_cons _ hc, skipProlog, if_neg hl, if_pos hspace]
      exact ih false (fun _ ↦ rfl) hs
  | case7 isStart c s hl hspace =>
    have hc : c.endsLine = false := by
      cases hc : c.endsLine with
      | false => rfl
      | true => exact absurd (isXmlSpace_of_endsLine hc) hspace
    rw [unifyFrom_cons _ hc, skipProlog, if_neg hl, if_neg hspace]
    exact agree_refuse _ _ _ _

end Check
end Scanners

namespace Attribute

theorem endsLine_of_isNameUnit {c : CodeUnit} (h : isNameUnit c = true) : c.endsLine = false := by
  cases hc : c.endsLine with
  | false => rfl
  | true =>
    rw [isNameUnit, isBlank_of_endsLine hc] at h
    cases h

theorem quoted?_unifyLines (s : Text) :
    quoted? s.unifyLines = (quoted? s).map fun (value, rest) ↦
      (value.unifyLines, rest.unifyLines) := by
  cases s with
  | nil => rfl
  | cons c s =>
    cases hc : c.isQuote with
    | true =>
      have hl : IsInLine [c] := by
        intro d hd
        rw [List.mem_singleton.mp hd]
        exact endsLine_of_isQuote hc
      rw [unifyLines, unifyFrom_cons _ (endsLine_of_isQuote hc), quoted?, quoted?,
        if_pos hc, if_pos hc, splitFirst?_unifyFrom false hl (List.cons_ne_nil c [])]
      rfl
    | false =>
      have hn {d : CodeUnit} (hd : d = lineFeed ∨ d = carriageReturn) (t : Text) :
          quoted? (d :: t) = none := by
        rcases hd with rfl | rfl <;> rfl
      rcases endsLine_cases c with rfl | rfl | hl
      · rw [unifyLines, unifyFrom_false_lineFeed, hn (.inl rfl), hn (.inl rfl), Option.map_none]
      · rw [unifyLines, unifyFrom_carriageReturn, hn (.inl rfl), hn (.inr rfl), Option.map_none]
      · rw [unifyLines, unifyFrom_cons _ hl, quoted?, quoted?, hc, if_neg Bool.false_ne_true,
          if_neg Bool.false_ne_true, Option.map_none]

theorem afterEquals?_unifyLines (s : Text) :
    afterEquals? s.unifyLines = (afterEquals? s).map unifyLines := by
  have he : ("=" : Text).IsInLine := by decide
  rw [afterEquals?, afterEquals?, unifyLines, trimStart_unifyFrom, startsWith_unifyLines he]
  split
  · next h => exact congrArg some (drop_unifyLines he h)
  · rfl

theorem skipEquals_unifyLines (s : Text) : skipEquals s.unifyLines = (skipEquals s).unifyLines := by
  rw [skipEquals, skipEquals, afterEquals?_unifyLines]
  cases afterEquals? s <;> rfl

theorem quoted?_trimStart_unifyLines (s : Text) :
    quoted? (trimStart s.unifyLines) = (quoted? s.trimStart).map fun (value, rest) ↦
      (value.unifyLines, rest.unifyLines) := by
  rw [unifyLines, trimStart_unifyFrom, quoted?_unifyLines]

theorem skipValue_unifyLines (s : Text) : skipValue s.unifyLines = (skipValue s).unifyLines := by
  rw [skipValue, skipValue, quoted?_trimStart_unifyLines]
  cases quoted? s.trimStart <;> rfl

theorem skipAssignment_unifyLines (s : Text) :
    skipAssignment s.unifyLines = (skipAssignment s).unifyLines := by
  rw [skipAssignment, skipAssignment, (takeWhile_unifyLines s fun _ ↦ endsLine_of_isNameUnit).2,
    skipEquals_unifyLines, skipValue_unifyLines]

def Mark.SameForm (m m' : Mark) : Prop := ∃ offset, m' = { m with offset }

theorem length_trimStart_lt_iff (s : Text) :
    s.trimStart.length < s.length ↔ s.head?.any isBlank = true := by
  cases s with
  | nil => exact iff_of_false (Nat.lt_irrefl 0) Bool.false_ne_true
  | cons c s =>
    rw [List.head?_cons, Option.any_some]
    cases hc : c.isBlank with
    | true =>
      rw [trimStart, List.dropWhile_cons, if_pos hc]
      exact iff_of_true (Nat.lt_succ_of_le (length_trimStart_le s)) rfl
    | false =>
      rw [trimStart_cons hc]
      exact iff_of_false (Nat.lt_irrefl _) Bool.false_ne_true

theorem any_head?_unifyLines (s : Text) : s.unifyLines.head?.any isBlank = s.head?.any isBlank := by
  cases s with
  | nil => rfl
  | cons c s =>
    rcases endsLine_cases c with rfl | rfl | hc
    · rfl
    · rfl
    · rw [unifyLines, unifyFrom_cons _ hc]
      rfl

theorem marks_of_trimStart_nil {s : Text} (h : s.trimStart = []) (offset : Nat) :
    marks offset s = [] := by
  rw [marks]
  split
  · rfl
  · next hc => cases h.symm.trans hc

theorem marks_of_trimStart_equal {s t : Text} (h : s.trimStart = equal :: t) (offset : Nat) :
    ∃ next, marks offset s = marks next t := by
  rw [marks]
  split
  · next hn => cases h.symm.trans hn
  · next hc =>
    cases h.symm.trans hc
    rw [if_pos rfl]
    exact ⟨_, rfl⟩

theorem marks_of_trimStart_cons {s t : Text} {c : CodeUnit} (h : s.trimStart = c :: t)
    (hc : c ≠ equal) (offset : Nat) :
    ∃ place next, marks offset s =
      { offset := place
        isSpaced := s.head?.any isBlank
        name := c :: t.takeWhile isNameUnit
        hasEquals := (afterEquals? (t.dropWhile isNameUnit)).isSome
        hasValue := (quoted? (trimStart (skipEquals (t.dropWhile isNameUnit)))).isSome }
        :: marks next (skipAssignment t) := by
  have hspaced : decide (t.length + 1 < s.length) = s.head?.any isBlank := by
    rw [Bool.eq_iff_iff, decide_eq_true_eq, ← length_trimStart_lt_iff, h, List.length_cons]
  rw [marks]
  split
  · next hn => cases h.symm.trans hn
  · next d u hd =>
    cases h.symm.trans hd
    rw [if_neg hc, hspaced]
    exact ⟨_, _, rfl⟩

theorem marks_unifyLines (offset offset' : Nat) (s : Text) :
    List.Forall₂ Mark.SameForm (marks offset s) (marks offset' s.unifyLines) := by
  have htrim : trimStart s.unifyLines = s.trimStart.unifyLines := trimStart_unifyFrom false s
  cases h : s.trimStart with
  | nil =>
    rw [h] at htrim
    rw [marks_of_trimStart_nil h, marks_of_trimStart_nil htrim]
    exact .nil
  | cons c t =>
    have hlt : t.length < s.length := length_lt_of_dropWhile h
    have hline : c.endsLine = false := by
      cases hc : c.endsLine with
      | false => rfl
      | true =>
        exact absurd ((isBlank_of_trimStart h).symm.trans (isBlank_of_endsLine hc))
          Bool.false_ne_true
    have hunify : unifyLines (c :: t) = c :: unifyLines t := unifyFrom_cons false hline
    rw [h, hunify] at htrim
    by_cases hc : c = equal
    · rw [hc] at h htrim
      obtain ⟨next, hm⟩ := marks_of_trimStart_equal h offset
      obtain ⟨next', hm'⟩ := marks_of_trimStart_equal htrim offset'
      rw [hm, hm']
      exact marks_unifyLines next next' t
    · have hrest : (skipAssignment t).length < s.length :=
        Nat.lt_of_le_of_lt (length_skipAssignment_le t) hlt
      obtain ⟨place, next, hm⟩ := marks_of_trimStart_cons h hc offset
      obtain ⟨place', next', hm'⟩ := marks_of_trimStart_cons htrim hc offset'
      obtain ⟨htake, hdrop⟩ := takeWhile_unifyLines t fun _ ↦ endsLine_of_isNameUnit
      rw [hm, hm', any_head?_unifyLines, htake, hdrop, afterEquals?_unifyLines,
        skipEquals_unifyLines, quoted?_trimStart_unifyLines, Option.isSome_map, Option.isSome_map,
        skipAssignment_unifyLines]
      exact .cons ⟨place', rfl⟩ (marks_unifyLines next next' (skipAssignment t))
termination_by s.length

end Attribute

namespace TagSpan

def unifyLines (t : TagSpan) : TagSpan := ⟨t.inside.unifyLines, t.openQuote, t.rest.unifyLines⟩

end TagSpan

namespace Check

namespace Tag

def unifyLines (t : Tag) : Tag := { t with afterName := t.afterName.unifyLines }

theorem endsLine_of_isNameUnit {c : CodeUnit} (h : isNameUnit c = true) : c.endsLine = false := by
  cases hc : c.endsLine with
  | false => rfl
  | true =>
    rw [isNameUnit, isXmlSpace_of_endsLine hc, Bool.not_true, Bool.and_false] at h
    cases h

theorem ofName_unifyLines (isClosing : Bool) {raw : Text} (h : raw.IsInLine) (rest : Text) :
    ofName isClosing raw rest.unifyLines = (ofName isClosing raw rest).unifyLines := by
  have hdrop : IsInLine (raw.drop (raw.length - 1)) := fun c hc ↦ h c (List.mem_of_mem_drop hc)
  rw [ofName, ofName]
  split
  · rw [unifyLines, unifyLines_append hdrop]
  · rfl

theorem read_unifyLines (s : Text) : read s.unifyLines = (read s).unifyLines := by
  have hs : ("/" : Text).IsInLine := by decide
  have hname (s : Text) (isClosing : Bool) :
      ofName isClosing (s.unifyLines.takeWhile isNameUnit) (s.unifyLines.dropWhile isNameUnit) =
        (ofName isClosing (s.takeWhile isNameUnit) (s.dropWhile isNameUnit)).unifyLines := by
    obtain ⟨htake, hdrop⟩ := takeWhile_unifyLines s fun _ ↦ endsLine_of_isNameUnit
    rw [htake, hdrop]
    exact ofName_unifyLines isClosing (fun c hc ↦
      endsLine_of_isNameUnit (List.all_eq_true.mp List.all_takeWhile c hc)) _
  rw [read, read, startsWith_unifyLines hs]
  split
  · next h =>
    have hdrop : s.unifyLines.drop 1 = Text.unifyLines (s.drop 1) := drop_unifyLines hs h
    rw [hdrop]
    exact hname _ _
  · exact hname s _

theorem span_unifyLines (t : Tag) : t.unifyLines.span = t.span.unifyLines :=
  spanTag_unifyFrom false (fun d hd ↦ absurd hd (Option.not_mem_none d)) t.afterName

theorem next_unifyLines (t : Tag) : t.unifyLines.next = t.next.unifyLines := by
  rw [next, next, span_unifyLines, TagSpan.unifyLines]
  rcases spanTag_rest_cases id none t.afterName with h | ⟨rest, h⟩
  · rw [span, h]
    rfl
  · rw [span, h]
    rfl

end Tag

theorem judgeAttributes_agree {marks marks' : List Attribute.Mark}
    (h : List.Forall₂ Attribute.Mark.SameForm marks marks') (afterName afterName' : Text)
    (seen : List Text) :
    Agree Eq (judgeAttributes afterName seen marks) (judgeAttributes afterName' seen marks') := by
  induction h generalizing seen with
  | nil => exact .ok rfl
  | cons hm _ ih =>
    obtain ⟨offset, rfl⟩ := hm
    rw [judgeAttributes, judgeAttributes]
    refine .ite (fun _ ↦ agree_refuse _ _ _ _) fun _ ↦ ?_
    refine .ite (fun _ ↦ agree_refuse _ _ _ _) fun _ ↦ ?_
    refine .ite (fun _ ↦ agree_refuse _ _ _ _) fun _ ↦ ?_
    refine .ite (fun _ ↦ agree_refuse _ _ _ _) fun _ ↦ ?_
    refine .ite (fun _ ↦ .fault _) fun _ ↦ ?_
    refine .ite (fun _ ↦ agree_refuse _ _ _ _) fun _ ↦ ?_
    exact ih _

structure Progress.Matches (p p' : Progress) : Prop where
  opened : p'.opened.map OpenTag.name = p.opened.map OpenTag.name
  rootClosed : p'.rootClosed = p.rootClosed

theorem judge_agree {p p' : Progress} (hp : p.Matches p') (s s' : Text) (t : Tag) :
    Agree Progress.Matches (p.judge s t) (p'.judge s' t.unifyLines) := by
  have hslash : slash.endsLine = false := rfl
  have hclosed : p'.rootClosed = p.rootClosed := hp.rootClosed
  have hends : t.unifyLines.span.inside.endsIn slash = t.span.inside.endsIn slash := by
    rw [Tag.span_unifyLines]
    exact endsIn_unifyFrom false hslash _
  have hempty : t.unifyLines.span.rest.isEmpty = t.span.rest.isEmpty := by
    rw [Tag.span_unifyLines]
    exact isEmpty_unifyLines _
  have htrim : t.unifyLines.span.inside.trim.isEmpty = t.span.inside.trim.isEmpty := by
    rw [Tag.span_unifyLines, isEmpty_trim, isEmpty_trim, TagSpan.unifyLines, Text.unifyLines,
      trimStart_unifyFrom, isEmpty_unifyLines]
  have hopen : t.unifyLines.span.openQuote = t.span.openQuote := by rw [Tag.span_unifyLines]; rfl
  have hinside : t.unifyLines.span.inside = t.span.inside.unifyLines := by
    rw [Tag.span_unifyLines]; rfl
  rw [Progress.judge, Progress.judge, hends, hempty, htrim, hopen, hclosed]
  refine .ite (fun _ ↦ agree_refuse _ _ _ _) fun _ ↦ ?_
  refine .ite (fun _ ↦ agree_refuse _ _ _ _) fun _ ↦ ?_
  refine .ite (fun h ↦ ?_) fun _ ↦ ?_
  · rw [hinside, dropLast_unifyLines (c := slash) rfl h]
    exact (judgeAttributes_agree (Attribute.marks_unifyLines 0 0 _) _ _ _).bind fun _ _ _ _ ↦ .ok hp
  refine .ite (fun _ ↦ ?_) fun _ ↦ ?_
  · refine .ite (fun _ ↦ agree_refuse _ _ _ _) fun _ ↦ ?_
    refine .ite (fun _ ↦ agree_refuse _ _ _ _) fun _ ↦ ?_
    have hopened := hp.opened
    cases ho : p.opened with
    | nil =>
      rw [ho] at hopened
      rw [List.map_eq_nil_iff.mp hopened]
      exact agree_refuse _ _ _ _
    | cons o opened =>
      rw [ho, List.map_cons] at hopened
      obtain ⟨o', opened', ho', hname, hrest⟩ := List.map_eq_cons_iff.mp hopened
      rw [ho']
      dsimp only
      rw [hname]
      refine .ite (fun _ ↦ agree_refuse _ _ _ _) fun _ ↦ .ok ⟨hrest, ?_⟩
      have hempty : opened'.isEmpty = opened.isEmpty := by
        rw [← List.isEmpty_map, hrest, List.isEmpty_map]
      exact congrArg (p.rootClosed || ·) hempty
  · rw [hinside]
    refine (judgeAttributes_agree (Attribute.marks_unifyLines 0 0 _) _ _ _).bind fun _ _ _ _ ↦ ?_
    refine .ite (fun _ ↦ agree_refuse _ _ _ _) fun _ ↦ .ok ⟨?_, rfl⟩
    rw [List.map_cons, List.map_cons, hp.opened]
    rfl

theorem resume_eq (p : Progress) (s : Text) :
    resume p s = skipContent p.rootClosed s >>= fun rest ↦ rest.elim (.ok p) (run p) := by
  rw [resume]
  cases skipContent p.rootClosed s with
  | error e => rfl
  | ok rest => cases rest <;> rfl

theorem run_agree {p p' : Progress} (hp : p.Matches p') {s : Text} (h : ¬ BreaksOff s) :
    Agree Progress.Matches (run p s) (run p' s.unifyLines) := by
  have hnext : ¬ BreaksOff (Tag.read s).next := not_breaksOff_of_suffix h (Tag.next_suffix s)
  rw [run_eq, run_eq, Tag.read_unifyLines, Tag.next_unifyLines]
  refine (judge_agree hp s s.unifyLines (Tag.read s)).bind fun q q' _ hq ↦ ?_
  rw [resume_eq, resume_eq, hq.rootClosed]
  refine (skipContent_unifyFrom false q.rootClosed hnext).bind fun rest rest' hc hr ↦ ?_
  rw [hr]
  cases rest with
  | none => exact .ok hq
  | some rest =>
    have hlt : rest.length < s.length :=
      Nat.lt_of_lt_of_le (length_skipContent hc) (Tag.length_next_le s)
    exact run_agree hq (not_breaksOff_of_suffix hnext (skipContent_suffix hc))
termination_by s.length

theorem finish_agree {p p' : Progress} (hp : p.Matches p') : Agree Eq p.finish p'.finish := by
  have hopened := hp.opened
  rw [Progress.finish, Progress.finish]
  cases ho : p.opened with
  | nil =>
    rw [ho] at hopened
    rw [List.map_eq_nil_iff.mp hopened]
    exact .ok rfl
  | cons o opened =>
    rw [ho, List.map_cons] at hopened
    obtain ⟨o', opened', ho', -, hrest⟩ := List.map_eq_cons_iff.mp hopened
    rw [ho']
    cases opened with
    | nil =>
      rw [List.map_eq_nil_iff.mp hrest]
      exact agree_refuse _ _ _ _
    | cons o₂ opened =>
      obtain ⟨o₂', opened₂, ho₂, -, -⟩ := List.map_eq_cons_iff.mp hrest
      rw [ho₂]
      exact agree_refuse _ _ _ _

end Check

/-- Unifying the line ends of a text makes no difference to whether it is accepted. -/
theorem check_agree {s : Text} (h : ¬ Check.BreaksOff s) :
    Check.Agree Eq (check s) (check s.unifyLines) := by
  rw [check, check]
  refine (Check.skipProlog_unifyFrom false nofun h).bind fun rest rest' hs hr ↦ ?_
  rw [hr]
  cases rest with
  | none => exact Check.agree_refuse _ _ _ _
  | some rest =>
    have hrest : ¬ Check.BreaksOff rest :=
      Check.not_breaksOff_of_suffix h (Check.skipProlog_suffix hs)
    exact (Check.run_agree ⟨rfl, rfl⟩ hrest).bind fun p p' _ hp ↦ Check.finish_agree hp

end Markup
end AnalysisProject
