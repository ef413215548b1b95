import AnalysisProject.Proofs.Project.LineNumber
import AnalysisProject.Proofs.Text.Small
import AnalysisProject.Settings.Environment

namespace AnalysisProject

open CodeUnit

theorem CodeUnit.lowerAscii_of_isBlank {c : CodeUnit} (h : c.isBlank = true) :
    c.lowerAscii = c := by
  refine if_neg fun hl ↦ ?_
  simp only [Bool.and_eq_true, decide_eq_true_eq, UInt16.le_iff_toNat_le, UInt16.reduceToNat] at hl
  simp only [isBlank, Bool.or_eq_true, Bool.and_eq_true, decide_eq_true_eq, beq_iff_eq,
    ← UInt16.toNat_inj, UInt16.le_iff_toNat_le, UInt16.reduceToNat] at h
  omega

namespace Environment

/-- Decimal digits for `n`, with white space around them. -/
def IsCount (raw : Text) (n : Nat) : Prop :=
  ∃ digits, raw.IsPadded digits ∧ digits ≠ [] ∧ (∀ c ∈ digits, c.isDigit = true) ∧
    Nat.ofDigits 10 (digits.reverse.map digitValue) = n

def words : Bool → List Text
  | true => ["true", "1", "yes", "on"]
  | false => ["false", "0", "no", "off"]

def IsFlag (raw : Text) (b : Bool) : Prop := ∃ word, raw.IsPadded word ∧ word.lowerAscii ∈ words b

def Variable.Accepts : Variable → Text → Prop
  | indent, raw => ∃ n ≤ 536870888, IsCount raw n
  | debug, raw | reportClangAnalyzer, raw => ∃ b, IsFlag raw b

/-- What is raised for a text that a variable does not accept: digits that denote too large a number
are another matter than a text that has no meaning. -/
def Failure.IsRaisedFor (v : Variable) (raw : Text) : Failure → Prop
  | malformed source given => source = v ∧ given = raw ∧ ¬ (v = .indent ∧ ∃ n, IsCount raw n)
  | endless | tooLong => v = .indent ∧ ∃ n, 536870888 < n ∧ IsCount raw n

inductive IsJudged {α : Type} (v : Variable) (denotes : Text → α → Prop) (raw : Text) :
    Except Failure α → Prop
  | accepted {a : α} : v.Accepts raw → denotes raw a → IsJudged v denotes raw (.ok a)
  | refused {f : Failure} : ¬ v.Accepts raw → f.IsRaisedFor v raw →
    IsJudged v denotes raw (.error f)

theorem isCount_iff {raw : Text} {n : Nat} :
    IsCount raw n ↔ raw.trim ≠ [] ∧ (∀ c ∈ raw.trim, c.isDigit = true) ∧
      Text.digitsValue raw.trim = n := by
  constructor
  · rintro ⟨digits, hpad, hne, hdigits, hvalue⟩
    rw [hpad.trim_eq fun c hc ↦ isBlank_of_isDigit (hdigits c hc), Text.digitsValue_eq_ofDigits]
    exact ⟨hne, hdigits, hvalue⟩
  · rintro ⟨hne, hdigits, hvalue⟩
    exact ⟨raw.trim, raw.isPadded_trim, hne, hdigits, Text.digitsValue_eq_ofDigits _ ▸ hvalue⟩

theorem IsCount.unique {raw : Text} {m n : Nat} (hm : IsCount raw m) (hn : IsCount raw n) : m = n :=
  (isCount_iff.mp hm).2.2.symm.trans (isCount_iff.mp hn).2.2

theorem isFlag_iff {raw : Text} {b : Bool} : IsFlag raw b ↔ raw.trim.lowerAscii ∈ words b := by
  constructor
  · rintro ⟨word, hpad, hword⟩
    have hplain : ∀ c ∈ word, c.isBlank = false := by
      intro c hc
      have hall : ∀ w ∈ words b, ∀ c ∈ w, c.isBlank = false := by cases b <;> decide
      cases hb : c.isBlank with
      | false => rfl
      | true =>
        have hm := hall _ hword _ (List.mem_map_of_mem hc)
        rwa [lowerAscii_of_isBlank hb, hb] at hm
    rwa [hpad.trim_eq hplain]
  · exact fun h ↦ ⟨raw.trim, raw.isPadded_trim, h⟩

theorem IsFlag.unique {raw : Text} {a b : Bool} (ha : IsFlag raw a) (hb : IsFlag raw b) :
    a = b := by
  have hdisjoint : ∀ w ∈ words true, w ∉ words false := by decide
  rw [isFlag_iff] at ha hb
  cases a <;> cases b
  · rfl
  · exact absurd ha (hdisjoint _ hb)
  · exact absurd hb (hdisjoint _ ha)
  · rfl

theorem IsCount.isDigits {raw : Text} {n : Nat} (h : IsCount raw n) :
    (raw.trim.isEmpty || !raw.trim.all CodeUnit.isDigit) = false := by
  obtain ⟨hne, hdigits, -⟩ := isCount_iff.mp h
  rw [List.isEmpty_eq_false_iff.mpr hne, List.all_eq_true.mpr hdigits]
  rfl

theorem readCount_of_integer {raw : Text} {n : Nat} {k : Int} (h : IsCount raw n)
    (hk : Number.ofDecimal false n 0 = .integer k) :
    readCount raw = if maxIndent < k then .error .tooLong else .ok k.toNat := by
  rw [← (isCount_iff.mp h).2.2] at hk
  simp only [readCount, h.isDigits, hk, Bool.false_eq_true, if_false]

theorem readCount_of_infinity {raw : Text} {n : Nat} {b : Bool} (h : IsCount raw n)
    (hb : Number.ofDecimal false n 0 = .infinity b) : readCount raw = .error .endless := by
  rw [← (isCount_iff.mp h).2.2] at hb
  simp only [readCount, h.isDigits, hb, Bool.false_eq_true, if_false]

theorem readCount_of_le {raw : Text} {n : Nat} (h : IsCount raw n) (hn : n ≤ 536870888) :
    readCount raw = .ok n := by
  have hle : ¬ (maxIndent : Int) < n := Int.not_lt.mpr (Int.ofNat_le.mpr hn)
  rw [readCount_of_integer h (Number.ofDecimal_of_lt (Nat.lt_of_le_of_lt hn (by decide))),
    if_neg hle]
  rfl

/-- However a number that is too large is rounded, it stays too large. -/
theorem readCount_of_lt {raw : Text} {n : Nat} (h : IsCount raw n) (hn : 536870888 < n) :
    readCount raw = .error .endless ∨ readCount raw = .error .tooLong := by
  have htooLong {k : Nat} (hk : maxIndent < k) (he : Number.ofDecimal false n 0 = .integer k) :
      readCount raw = .error .tooLong := by
    rw [readCount_of_integer h he, if_pos (Int.ofNat_lt.mpr hk)]
  rcases Nat.lt_or_ge n (2 ^ 53) with hs | hl
  · exact .inr (htooLong hn (Number.ofDecimal_of_lt hs))
  · rcases Number.ofDecimal_of_le hl with he | ⟨k, hk, he⟩
    · exact .inl (readCount_of_infinity h he)
    · exact .inr (htooLong (Nat.lt_of_lt_of_le (by decide) hk) he)

theorem readCount_of_not_isCount {raw : Text} (h : ∀ n, ¬ IsCount raw n) :
    readCount raw = .error (.malformed .indent raw) := by
  refine if_pos ?_
  rw [Bool.or_eq_true, List.isEmpty_iff, Bool.not_eq_true', List.all_eq_false]
  by_contra hnot
  rw [not_or] at hnot
  refine h _ (isCount_iff.mpr ⟨hnot.1, fun c hc ↦ ?_, rfl⟩)
  by_contra hd
  exact hnot.2 ⟨c, hc, hd⟩

theorem isJudged_readCount (raw : Text) : IsJudged .indent IsCount raw (readCount raw) := by
  by_cases h : ∃ n, IsCount raw n
  · obtain ⟨n, hcount⟩ := h
    rcases Nat.lt_or_ge 536870888 n with hn | hn
    · have hrefused : ¬ Variable.indent.Accepts raw := fun ⟨m, hm, hraw⟩ ↦
        Nat.not_lt_of_le hm (hraw.unique hcount ▸ hn)
      rcases readCount_of_lt hcount hn with he | he <;> rw [he] <;>
        exact .refused hrefused ⟨rfl, n, hn, hcount⟩
    · rw [readCount_of_le hcount hn]
      exact .accepted ⟨n, hn, hcount⟩ hcount
  · rw [readCount_of_not_isCount (not_exists.mp h)]
    exact .refused (fun ⟨n, _, hraw⟩ ↦ h ⟨n, hraw⟩) ⟨rfl, rfl, fun hraw ↦ h hraw.2⟩

theorem small_trim_mem_words_iff (raw : Text) (b : Bool) :
    raw.trim.small ∈ words b ↔ IsFlag raw b := by
  have hordinary : ∀ w ∈ words b, ∀ c ∈ w, c.IsOrdinary := by cases b <;> decide
  rw [isFlag_iff]
  constructor
  · intro h
    rwa [(Text.small_eq_iff (hordinary _ h) raw.trim).mp rfl]
  · intro h
    rwa [(Text.small_eq_iff (hordinary _ h) raw.trim).mpr rfl]

theorem isJudged_readFlag {v : Variable} (hv : v ≠ .indent) (raw : Text) :
    IsJudged v IsFlag raw (readFlag v raw) := by
  have haccepts : v.Accepts raw ↔ ∃ b, IsFlag raw b := by
    cases v with
    | indent => exact absurd rfl hv
    | debug | reportClangAnalyzer => exact Iff.rfl
  have htrue : trueWords.contains raw.trim.small = true ↔ IsFlag raw true :=
    List.contains_iff_mem.trans (small_trim_mem_words_iff raw true)
  have hfalse : falseWords.contains raw.trim.small = true ↔ IsFlag raw false :=
    List.contains_iff_mem.trans (small_trim_mem_words_iff raw false)
  rw [readFlag]
  by_cases ht : trueWords.contains raw.trim.small = true
  · simp only [ht, if_true]
    exact .accepted (haccepts.mpr ⟨true, htrue.mp ht⟩) (htrue.mp ht)
  · by_cases hf : falseWords.contains raw.trim.small = true
    · simp only [ht, hf, if_true]
      exact .accepted (haccepts.mpr ⟨false, hfalse.mp hf⟩) (hfalse.mp hf)
    · simp only [ht, hf]
      refine .refused (fun hraw ↦ ?_) ⟨rfl, rfl, fun hraw ↦ hv hraw.1⟩
      obtain ⟨b, hb⟩ := haccepts.mp hraw
      cases b with
      | true => exact ht (htrue.mpr hb)
      | false => exact hf (hfalse.mpr hb)

end Environment
end AnalysisProject
