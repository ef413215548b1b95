import AnalysisProject.Markup.Check

namespace AnalysisProject.Markup

open CodeUnit

namespace Attribute

structure Mark.IsComplete (m : Mark) : Prop where
  isSpaced : m.isSpaced = true
  hasEquals : m.hasEquals = true
  hasValue : m.hasValue = true
  isName : m.name.isName = true

/-- The register is lost on `taken`, which takes its place, and found missing at `next`. The
attributes up to `taken` have names of their own, apart from the name that is never registered. -/
structure Loses (marks before : List Mark) (taken next : Mark) (more : List Mark) : Prop where
  split : marks = before ++ taken :: next :: more
  name : taken.name = "hasOwnProperty"
  isComplete : ∀ m ∈ before ++ [taken, next], m.IsComplete
  names : (before ++ [taken]).Pairwise fun m k ↦ m.name = k.name → m.name = ("__proto__" : Text)

theorem loses_nil {m : Mark} {marks : List Mark} {taken next : Mark} {more : List Mark} :
    Loses (m :: marks) [] taken next more ↔
      m = taken ∧ marks = next :: more ∧ m.name = "hasOwnProperty" ∧ m.IsComplete ∧
        next.IsComplete := by
  constructor
  · rintro ⟨hs, hn, hc, -⟩
    rw [List.nil_append, List.cons.injEq] at hs
    obtain ⟨rfl, rfl⟩ := hs
    exact ⟨rfl, rfl, hn, hc m (by simp), hc next (by simp)⟩
  · rintro ⟨rfl, rfl, hn, hm, hc⟩
    exact ⟨rfl, hn, by simp [hm, hc], List.pairwise_singleton _ _⟩

theorem loses_cons {m k : Mark} {marks before : List Mark} {taken next : Mark} {more : List Mark} :
    Loses (m :: marks) (k :: before) taken next more ↔
      m = k ∧ m.IsComplete ∧
        (∀ l ∈ before ++ [taken], m.name = l.name → m.name = ("__proto__" : Text)) ∧
        Loses marks before taken next more := by
  constructor
  · rintro ⟨hs, hn, hc, hp⟩
    rw [List.cons_append, List.cons.injEq] at hs
    rw [List.cons_append, List.forall_mem_cons] at hc
    rw [List.cons_append, List.pairwise_cons] at hp
    obtain ⟨rfl, hs⟩ := hs
    exact ⟨rfl, hc.1, hp.1, hs, hn, hc.2, hp.2⟩
  · rintro ⟨rfl, hm, hl, hs, hn, hc, hp⟩
    exact ⟨by
      rw [hs, List.cons_append], hn, List.forall_mem_cons.mpr ⟨hm, hc⟩,
      List.pairwise_cons.mpr ⟨hl, hp⟩⟩

theorem Loses.head {m : Mark} {marks before : List Mark} {taken next : Mark} {more : List Mark}
    (h : Loses (m :: marks) before taken next more) : m.IsComplete ∧ m ∈ before ++ [taken] := by
  cases before with
  | nil =>
    obtain ⟨rfl, -, -, hm, -⟩ := loses_nil.mp h
    exact ⟨hm, List.mem_singleton_self m⟩
  | cons k before =>
    obtain ⟨rfl, hm, -⟩ := loses_cons.mp h
    exact ⟨hm, List.mem_cons_self⟩

end Attribute

namespace Check

open Attribute

variable {afterName : Text} {seen : List Text} {m : Mark} {marks : List Mark} {fault : Fault}

theorem judgeAttributes_of_not_isComplete (afterName : Text) (seen : List Text) {m : Mark}
    (marks : List Mark) (h : ¬ m.IsComplete) :
    ∃ refusal, judgeAttributes afterName seen (m :: marks) = .error (.refused refusal) := by
  rw [judgeAttributes]
  by_cases hs : m.isSpaced = true
  · by_cases he : m.hasEquals = true
    · by_cases hv : m.hasValue = true
      · have hn : m.name.isName = false := Bool.eq_false_iff.mpr fun hn ↦ h ⟨hs, he, hv, hn⟩
        exact ⟨_, by simp only [hs, he, hv, hn]; rfl⟩
      · exact ⟨_, by simp only [hs, he, Bool.eq_false_iff.mpr hv]; rfl⟩
    · exact ⟨_, by simp only [hs, Bool.eq_false_iff.mpr he]; rfl⟩
  · exact ⟨_, by simp only [Bool.eq_false_iff.mpr hs]; rfl⟩

theorem judgeAttributes_cons (h : m.IsComplete) :
    judgeAttributes afterName seen (m :: marks) =
      if seen.contains "hasOwnProperty" then .error (.fault .registerLost)
      else if seen.contains m.name then refuse (.repeatedAttribute m.name) (afterName.drop m.offset)
      else judgeAttributes afterName (if m.name == "__proto__" then seen else m.name ::
          seen) marks := by
  rw [judgeAttributes]
  simp only [h.isSpaced, h.hasEquals, h.hasValue, h.isName]
  rfl

theorem not_mem_register {name key : Text} :
    key ∉ (if name == ("__proto__" : Text) then seen else name :: seen) ↔
      key ∉ seen ∧ (name = key → name = ("__proto__" : Text)) := by
  by_cases hp : name = ("__proto__" : Text)
  · simp [hp]
  · simp only [beq_iff_eq, hp, if_false, List.mem_cons, not_or, imp_false]
    exact ⟨fun ⟨hk, hs⟩ ↦ ⟨hs, fun h ↦ hk h.symm⟩, fun ⟨hs, hk⟩ ↦ ⟨fun h ↦ hk h.symm, hs⟩⟩

theorem judgeAttributes_lost (h : ("hasOwnProperty" : Text) ∈ seen) :
    judgeAttributes afterName seen marks = .error (.fault fault) ↔
      fault = .registerLost ∧ ∃ next more, marks = next :: more ∧ next.IsComplete := by
  cases marks with
  | nil => simp [judgeAttributes]
  | cons m marks =>
    by_cases hm : m.IsComplete
    · rw [judgeAttributes_cons hm, if_pos (List.contains_iff_mem.mpr h)]
      constructor
      · intro he
        cases he
        exact ⟨rfl, m, marks, rfl, hm⟩
      · rintro ⟨rfl, -⟩
        rfl
    · obtain ⟨refusal, he⟩ := judgeAttributes_of_not_isComplete afterName seen marks hm
      rw [he]
      constructor
      · intro hf
        cases hf
      · rintro ⟨-, next, more, hn, hc⟩
        cases hn
        exact absurd hc hm

theorem judgeAttributes_eq_fault_iff (h : ("hasOwnProperty" : Text) ∉ seen) :
    judgeAttributes afterName seen marks = .error (.fault fault) ↔
      fault = .registerLost ∧ ∃ before taken next more, Loses marks before taken next more ∧
        ∀ m ∈ before ++ [taken], Mark.name m ∉ seen := by
  -- The names in `seen` are excluded, so that the induction can register one after the other.
  induction marks generalizing seen with
  | nil =>
    constructor
    · intro he
      cases he
    · rintro ⟨-, before, taken, next, more, hl, -⟩
      exact absurd hl.split (by simp)
  | cons m marks ih =>
    by_cases hm : m.IsComplete
    · rw [judgeAttributes_cons hm, if_neg (by simpa using h)]
      by_cases hs : m.name ∈ seen
      · rw [if_pos (List.contains_iff_mem.mpr hs)]
        constructor
        · intro he
          cases he
        · rintro ⟨-, before, taken, next, more, hl, hn⟩
          exact absurd hs (hn m hl.head.2)
      · rw [if_neg (by simpa using hs)]
        by_cases hw : m.name = "hasOwnProperty"
        -- The register is lost here, and the next attribute meets the fault.
        · have hp : (m.name == "__proto__") = false := by rw [hw]; rfl
          rw [hp, if_neg Bool.false_ne_true,
            judgeAttributes_lost (by rw [hw]; exact List.mem_cons_self)]
          refine and_congr_right fun _ ↦ ⟨?_, ?_⟩
          · rintro ⟨next, more, rfl, hc⟩
            exact ⟨[], m, next, more, loses_nil.mpr ⟨rfl, rfl, hw, hm, hc⟩, by simpa using hs⟩
          · rintro ⟨before, taken, next, more, hl, -⟩
            cases before with
            | nil =>
              obtain ⟨rfl, hmore, -, -, hc⟩ := loses_nil.mp hl
              exact ⟨next, more, hmore, hc⟩
            | cons k before =>
              obtain ⟨rfl, -, hk, hl⟩ := loses_cons.mp hl
              have htaken := hk taken (by simp) (hw.trans hl.name.symm)
              exact absurd (hw.symm.trans htaken) (by decide)
        · have hseen : ("hasOwnProperty" : Text) ∉ (if m.name == "__proto__" then seen
              else m.name :: seen) :=
            not_mem_register.mpr ⟨h, fun hn ↦ absurd hn hw⟩
          rw [ih hseen]
          refine and_congr_right fun _ ↦ ⟨?_, ?_⟩
          · rintro ⟨before, taken, next, more, hl, hn⟩
            refine ⟨m :: before, taken, next, more, loses_cons.mpr ⟨rfl, hm, ?_, hl⟩, ?_⟩
            · exact fun k hk ↦ (not_mem_register.mp (hn k hk)).2
            · exact List.forall_mem_cons.mpr ⟨hs, fun k hk ↦ (not_mem_register.mp (hn k hk)).1⟩
          · rintro ⟨before, taken, next, more, hl, hn⟩
            cases before with
            | nil => exact absurd (loses_nil.mp hl).2.2.1 hw
            | cons k before =>
              obtain ⟨rfl, -, hk, hl⟩ := loses_cons.mp hl
              rw [List.cons_append, List.forall_mem_cons] at hn
              exact ⟨before, taken, next, more, hl, fun l hmem ↦
                not_mem_register.mpr ⟨hn.2 l hmem, hk l hmem⟩⟩
    · obtain ⟨refusal, he⟩ := judgeAttributes_of_not_isComplete afterName seen marks hm
      rw [he]
      constructor
      · intro hf
        cases hf
      · rintro ⟨-, before, taken, next, more, hl, -⟩
        exact absurd hl.head.1 hm

namespace Tag

def attributeText (t : Tag) : Text :=
  if t.span.inside.endsIn slash then t.span.inside.dropLast else t.span.inside

/-- The attributes of a tag are looked at, unless it has another flaw already or is a mere closing
tag. -/
structure JudgesAttributes (t : Tag) : Prop where
  isName : t.name.isName = true
  openQuote : t.span.openQuote = none
  kind : t.span.inside.endsIn slash = true ∨ t.isClosing = false

def LosesRegister (t : Tag) : Prop :=
  t.JudgesAttributes ∧ ∃ before taken next more,
    Loses (Attribute.marks 0 t.attributeText) before taken next more

end Tag

theorem judgeAttributes_nil_eq_fault_iff (afterName : Text) (marks : List Mark) (fault : Fault) :
    judgeAttributes afterName [] marks = .error (.fault fault) ↔
      fault = .registerLost ∧ ∃ before taken next more, Loses marks before taken next more := by
  rw [judgeAttributes_eq_fault_iff List.not_mem_nil]
  simp only [List.not_mem_nil, not_false_eq_true, implies_true, and_true]

theorem error_congr {α β : Type} {e e' : Failure} :
    (.error e : Except Failure α) = .error e' ↔ (.error e : Except Failure β) = .error e' :=
  ⟨fun h ↦ congrArg _ (Except.error.inj h), fun h ↦ congrArg _ (Except.error.inj h)⟩

theorem refuse_ne_fault {α : Type} (flaw : Flaw) (rest : Text) (fault : Fault) :
    (refuse flaw rest : Except Failure α) ≠ .error (.fault fault) := by
  intro h
  cases h

theorem judge_of_judgesAttributes (p : Progress) (s : Text) {t : Tag} (h : t.JudgesAttributes) :
    ∃ x : Except Failure Progress, (∀ fault, x ≠ .error (.fault fault)) ∧
      p.judge s t = judgeAttributes t.afterName [] (Attribute.marks 0 t.attributeText) >>=
        fun _ ↦ x := by
  rw [Progress.judge, Tag.attributeText]
  simp only [h.isName, h.openQuote, Bool.not_true, Bool.false_eq_true, if_false, Option.isSome_none]
  by_cases hs : t.span.inside.endsIn slash = true
  · rw [if_pos hs, if_pos hs]
    exact ⟨.ok p, nofun, rfl⟩
  · have hc := h.kind.resolve_left hs
    rw [if_neg hs, if_neg hs, hc, if_neg Bool.false_ne_true]
    refine ⟨_, fun fault ↦ ?_, rfl⟩
    split
    · exact refuse_ne_fault _ _ fault
    · nofun

theorem judge_ne_fault (p : Progress) (s : Text) {t : Tag} (h : ¬ t.JudgesAttributes)
    (fault : Fault) :
    p.judge s t ≠ .error (.fault fault) := by
  rw [Progress.judge]
  split
  · exact refuse_ne_fault _ _ fault
  · next hn =>
    have hname : t.name.isName = true := by simpa using hn
    split
    · exact refuse_ne_fault _ _ fault
    · next hq =>
      have hopen : t.span.openQuote = none := by simpa using hq
      split
      · next hs => exact absurd ⟨hname, hopen, .inl hs⟩ h
      · split
        · split
          · exact refuse_ne_fault _ _ fault
          · split
            · exact refuse_ne_fault _ _ fault
            · split
              · exact refuse_ne_fault _ _ fault
              · split
                · exact refuse_ne_fault _ _ fault
                · nofun
        · next hc => exact absurd ⟨hname, hopen, .inr (Bool.eq_false_iff.mpr hc)⟩ h

theorem judge_eq_fault_iff (p : Progress) (s : Text) (t : Tag) :
    p.judge s t = .error (.fault fault) ↔ fault = .registerLost ∧ t.LosesRegister := by
  by_cases ht : t.JudgesAttributes
  · obtain ⟨x, hx, hj⟩ := judge_of_judgesAttributes p s ht
    have ha :=
      judgeAttributes_nil_eq_fault_iff t.afterName (Attribute.marks 0 t.attributeText) fault
    rw [Tag.LosesRegister, and_iff_right ht, ← ha, hj]
    -- What is done with the tag once its attributes have passed brings no fault up.
    cases judgeAttributes t.afterName [] (Attribute.marks 0 t.attributeText) with
    | error e => exact error_congr
    | ok _ => exact iff_of_false (hx fault) nofun
  · exact iff_of_false (judge_ne_fault p s ht fault) fun h ↦ ht h.2.1

/-- The tags that a check comes to, each with the progress made before it. -/
inductive Reaches : Progress → Text → Progress → Text → Prop
  | here (p : Progress) (s : Text) : Reaches p s p s
  | next {p p' q : Progress} {s rest t : Text} :
      p.judge s (Tag.read s) = .ok p' → skipContent p'.rootClosed (Tag.read s).next =
        .ok (some rest) →
      Reaches p' rest q t → Reaches p s q t

theorem skipContent_ne_fault (isAfterRoot : Bool) (s : Text) :
    skipContent isAfterRoot s ≠ .error (.fault fault) := by
  fun_induction skipContent isAfterRoot s <;> simp_all [refuse]

theorem skipProlog_ne_fault (isStart : Bool) (s : Text) :
    skipProlog isStart s ≠ .error (.fault fault) := by
  fun_induction skipProlog isStart s <;> simp_all [refuse]

theorem finish_ne_fault (p : Progress) : p.finish ≠ .error (.fault fault) := by
  rw [Progress.finish]
  split <;> simp [refuse]

theorem Reaches.beyond {p p' q : Progress} {s t : Text} (h : Reaches p s q t)
    (hl : (Tag.read t).LosesRegister) (hj : p.judge s (Tag.read s) = .ok p') :
    ∃ rest, skipContent p'.rootClosed (Tag.read s).next = .ok (some rest) ∧
      Reaches p' rest q t := by
  cases h with
  | here =>
    have hf : p.judge s (Tag.read s) = .error (.fault .registerLost) :=
      (judge_eq_fault_iff p s _).mpr ⟨rfl, hl⟩
    cases hj.symm.trans hf
  | next hp hk hr =>
    cases hj.symm.trans hp
    exact ⟨_, hk, hr⟩

/-- The check of the tags comes to nothing exactly where one of those that it comes to loses the
register. -/
theorem run_eq_fault_iff (p : Progress) (s : Text) (fault : Fault) :
    run p s = .error (.fault fault) ↔
      fault = .registerLost ∧ ∃ q t, Reaches p s q t ∧ (Tag.read t).LosesRegister := by
  fun_induction run p s with
  | case1 p s e he =>
    constructor
    · intro hf
      obtain ⟨rfl, hl⟩ := (judge_eq_fault_iff p s _).mp (he.trans hf)
      exact ⟨rfl, p, s, .here p s, hl⟩
    · rintro ⟨rfl, q, t, hr, hl⟩
      cases hr with
      | here => exact he.symm.trans ((judge_eq_fault_iff p s _).mpr ⟨rfl, hl⟩)
      | next hj => cases he.symm.trans hj
  | case2 p s p' hj e he =>
    constructor
    · intro hf
      exact absurd (he.trans (error_congr.mp hf)) (skipContent_ne_fault _ _)
    · rintro ⟨-, q, t, hr, hl⟩
      obtain ⟨rest, hk, -⟩ := hr.beyond hl hj
      cases he.symm.trans hk
  | case3 p s p' hj he =>
    refine iff_of_false nofun ?_
    rintro ⟨-, q, t, hr, hl⟩
    obtain ⟨rest, hk, -⟩ := hr.beyond hl hj
    cases he.symm.trans hk
  | case4 p s p' hj rest he _ ih =>
    rw [ih]
    refine and_congr_right fun _ ↦ ⟨?_, ?_⟩
    · rintro ⟨q, t, hr, hl⟩
      exact ⟨q, t, .next hj he hr, hl⟩
    · rintro ⟨q, t, hr, hl⟩
      obtain ⟨rest', hk, hr⟩ := hr.beyond hl hj
      cases he.symm.trans hk
      exact ⟨q, t, hr, hl⟩

end Check

def LosesRegister (source : Text) : Prop :=
  ∃ s, Check.skipProlog true source = .ok (some s) ∧
    ∃ p t, Check.Reaches {} s p t ∧ (Check.Tag.read t).LosesRegister

theorem check_eq_fault_iff (source : Text) (fault : Fault) :
    check source = .error (.fault fault) ↔ fault = .registerLost ∧ LosesRegister source := by
  rw [LosesRegister]
  cases hp : Check.skipProlog true source with
  | error e =>
    have hcheck : check source = .error e := by rw [check, hp]; rfl
    rw [hcheck]
    exact iff_of_false (fun he ↦
      Check.skipProlog_ne_fault true source (hp.trans (Check.error_congr.mp he))) nofun
  | ok rest =>
    cases rest with
    | none =>
      have hcheck : check source = Check.refuse .noTag [] := by rw [check, hp]; rfl
      rw [hcheck]
      exact iff_of_false (Check.refuse_ne_fault _ _ fault) nofun
    | some s =>
      have hcheck : check source = Check.run {} s >>= Check.Progress.finish := by
        rw [check, hp]; rfl
      have hrun := Check.run_eq_fault_iff {} s fault
      simp only [Except.ok.injEq, Option.some.injEq, exists_eq_left']
      rw [← hrun, hcheck]
      cases Check.run {} s with
      | error e => exact Check.error_congr
      | ok p => exact iff_of_false (Check.finish_ne_fault p) nofun

end AnalysisProject.Markup
