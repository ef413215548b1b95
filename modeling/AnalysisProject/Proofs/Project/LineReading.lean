import AnalysisProject.Project.Canonical
import AnalysisProject.Proofs.Project.LineNumber

namespace AnalysisProject

open CodeUnit

namespace Text

def Denotes (s : Text) (v : Int) : Prop :=
  ∃ sign digits, IsSign sign ∧ IsDigits digits ∧ s = sign ++ digits ∧
    v = if sign = "-" then -((Nat.ofDigits 10 (digits.reverse.map digitValue) : Nat) : Int)
      else ((Nat.ofDigits 10 (digits.reverse.map digitValue) : Nat) : Int)

theorem Denotes.unique {s : Text} {v w : Int} (hv : s.Denotes v) (hw : s.Denotes w) : v = w := by
  obtain ⟨sign, digits, hs, hd, rfl, rfl⟩ := hv
  obtain ⟨sign', digits', hs', hd', he, rfl⟩ := hw
  have hdigits : digits = digits' := by
    have hdrop := dropSign_append hs hd []
    rw [List.append_nil, he, ← List.append_nil digits', dropSign_append hs' hd',
      List.append_nil] at hdrop
    exact hdrop.symm
  subst hdigits
  rw [List.append_cancel_right he]

theorem exists_isSign (s : Text) : ∃ sign, IsSign sign ∧ s = sign ++ s.dropSign := by
  have hfront {c : CodeUnit} (h : startsWith [c] s = true) : s = [c] ++ s.drop 1 :=
    (List.prefix_iff_eq_append.mp (List.isPrefixOf_iff_prefix.mp h)).symm
  rw [dropSign]
  split
  · next h =>
    rcases Bool.or_eq_true_iff.mp h with h | h
    · exact ⟨"+", .inr (.inl rfl), hfront h⟩
    · exact ⟨"-", .inr (.inr rfl), hfront h⟩
  · exact ⟨[], .inl rfl, rfl⟩

theorem exists_of_isInteger {raw : Text} (h : raw.isInteger = true) :
    ∃ sign digits, IsSign sign ∧ IsDigits digits ∧ raw.IsPadded (sign ++ digits) := by
  simp only [isInteger, Bool.and_eq_true, Option.any_eq_true, List.all_eq_true] at h
  obtain ⟨⟨c, hhead, hc⟩, hafter⟩ := h
  obtain ⟨sign, hsign, hs⟩ := exists_isSign raw.trimStart
  refine ⟨sign, raw.trimStart.dropSign.takeWhile CodeUnit.isDigit, hsign,
    ⟨?_, fun d hd ↦ List.mem_takeWhile_imp hd⟩, ?_⟩
  · obtain ⟨t, ht⟩ := List.head?_eq_some_iff.mp hhead
    rw [ht, List.takeWhile_cons_of_pos hc]
    exact List.cons_ne_nil _ _
  · refine ⟨raw.takeWhile isBlank, raw.trimStart.dropSign.dropWhile CodeUnit.isDigit,
      fun d hd ↦ List.mem_takeWhile_imp hd, hafter, ?_⟩
    rw [List.append_assoc, List.takeWhile_append_dropWhile, ← hs, trimStart,
      List.takeWhile_append_dropWhile]

end Text

namespace LineNumber

/-- What a text is read as: the line that it denotes once it is trimmed, or none. -/
inductive Reads (raw : Text) : Number → Prop
  | line {v : Int} : raw.trim.Denotes v → 1 ≤ v → v ≤ 2147483647 → Reads raw (.integer v)
  | none : (∀ v, raw.trim.Denotes v → ¬ (1 ≤ v ∧ v ≤ 2147483647)) → Reads raw (.integer (-1))

/-- However digits are rounded, they become the number of a line only if they denote it. -/
theorem isValid_ofDecimal {negative : Bool} {n : Nat} :
    isValid (Number.ofDecimal negative n 0) = true ↔ negative = false ∧ 1 ≤ n ∧ n ≤ 2147483647 := by
  cases negative with
  | true =>
    refine iff_of_false (fun h ↦ ?_) nofun
    obtain ⟨k, hk, hpos, -⟩ := exists_of_isValid h
    have hle := Number.nonpos_of_ofDecimal hk
    omega
  | false =>
    rcases Nat.lt_or_ge n (2 ^ 53) with hn | hn
    · rw [Number.ofDecimal_of_lt hn, isValid_iff, IsLine]
      simp only [true_and]
      omega
    · refine iff_of_false (fun h ↦ ?_) fun h ↦ ?_
      · obtain ⟨k, hk, -, hle⟩ := exists_of_isValid h
        rcases Number.ofDecimal_of_le hn with he | ⟨j, hj, he⟩
        · cases he.symm.trans hk
        · have hkj : (j : Int) = k := Number.integer.inj (he.symm.trans hk)
          omega
      · omega

theorem reads_parse (raw : Text) : Reads raw (parse raw) := by
  by_cases h : raw.isInteger = true
  · obtain ⟨sign, digits, hs, hd, hpad⟩ := Text.exists_of_isInteger h
    have htrim : raw.trim = sign ++ digits :=
      hpad.trim_eq fun c hc ↦ Text.not_isBlank_of_mem_sign_append hs hd hc
    have hdenotes : raw.trim.Denotes (if sign = "-" then -(Text.digitsValue digits : Int)
        else Text.digitsValue digits) := by
      rw [Text.digitsValue_eq_ofDigits]
      exact ⟨sign, digits, hs, hd, htrim, rfl⟩
    have hread := Text.leadingInteger_of_isPadded hs hd hpad
    simp only [parse, h, hread, if_true]
    by_cases hvalid : isValid (Number.ofDecimal (decide (sign = "-")) (Text.digitsValue digits) 0) =
      true
    · obtain ⟨hsign, hpos, hle⟩ := isValid_ofDecimal.mp hvalid
      have hlt : Text.digitsValue digits < 2 ^ 53 := by omega
      rw [if_neg (of_decide_eq_false hsign)] at hdenotes
      rw [if_pos hvalid, hsign, Number.ofDecimal_of_lt hlt]
      exact .line hdenotes (by omega) (by omega)
    · rw [if_neg hvalid]
      refine .none fun v hv hrange ↦ hvalid (isValid_ofDecimal.mpr ?_)
      rw [hv.unique hdenotes] at hrange
      by_cases hsign : sign = "-"
      · rw [if_pos hsign] at hrange
        omega
      · rw [if_neg hsign] at hrange
        exact ⟨decide_eq_false hsign, by omega, by omega⟩
  · simp only [parse, h, Bool.false_eq_true, if_false]
    refine .none fun v hv _ ↦ h ?_
    obtain ⟨sign, digits, hs, hd, htrim, -⟩ := hv
    exact Text.isInteger_of_isPadded hs hd (htrim ▸ raw.isPadded_trim)

theorem Reads.unique {raw : Text} {m n : Number} (hm : Reads raw m) (hn : Reads raw n) : m = n := by
  cases hm with
  | line hv hpos hle =>
    cases hn with
    | line hw _ _ => rw [hv.unique hw]
    | none hnone => exact absurd ⟨hpos, hle⟩ (hnone _ hv)
  | none hnone =>
    cases hn with
    | line hw hpos hle => exact absurd ⟨hpos, hle⟩ (hnone _ hw)
    | none _ => rfl

/-- A text is read as the line that it denotes, and as none where it denotes no line or nothing at
all. What is written for the line of a suppression is read as that line. -/
theorem parse_eq_iff_reads :
    (∀ (raw : Text) (n : Number), parse raw = n ↔ Reads raw n) ∧
      ∀ (s : Suppression) (v : Int), s.lineNumber = .integer v → 1 ≤ v → v ≤ 2147483647 →
        s.attributes.lookup ("lineNumber" : Text) = some (Text.decimal v.toNat) ∧
          parse (Text.decimal v.toNat) = .integer v := by
  constructor
  · intro raw n
    constructor
    · rintro rfl
      exact reads_parse raw
    · exact fun h ↦ (reads_parse raw).unique h
  · intro s v hv hpos hle
    have hvalid : isValid (.integer v) = true := isValid_iff.mpr ⟨hpos, hle⟩
    obtain ⟨k, hk, htext⟩ := text_of_isValid hvalid
    obtain rfl : v = k := Number.integer.inj hk
    have hparse := parse_text hvalid
    rw [htext] at hparse
    refine ⟨?_, hparse⟩
    rw [Suppression.attributes, hv, if_pos hvalid, htext]
    split <;> rfl

theorem parse_lastLine :
    parse " +002147483647\n" = .integer 2147483647 ∧ parse "2147483648" = unset ∧
      parse (Text.decimal 2147483647) = .integer 2147483647 := by
  have hlast : Text.Denotes (Text.trim " +002147483647\n") 2147483647 :=
    ⟨"+", "002147483647", .inr (.inl rfl), ⟨by decide, by decide⟩, by decide, by decide⟩
  have hnext : Text.Denotes (Text.trim "2147483648") 2147483648 :=
    ⟨[], "2147483648", .inl rfl, ⟨by decide, by decide⟩, by decide, by decide⟩
  refine ⟨(parse_eq_iff_reads.1 _ _).mpr (.line hlast (by decide) (by decide)),
    (parse_eq_iff_reads.1 _ _).mpr (.none fun v hv ↦ ?_), ?_⟩
  · rw [hv.unique hnext]
    decide
  · exact (parse_eq_iff_reads.2 ⟨"zerodiv", "", .integer 2147483647, ""⟩ 2147483647 rfl (by decide)
      (by decide)).2

end LineNumber
end AnalysisProject
