import AnalysisProject.Proofs.Markup.Lines
import AnalysisProject.Proofs.Project.Parse
import AnalysisProject.Storage.Error

namespace AnalysisProject.Project

open CodeUnit Text Markup

/-- The same has been read, or nothing has been and the errors are of one kind. -/
inductive ParseResult.Matches : ParseResult → ParseResult → Prop
  | parsed (p : Parsed) : Matches (.parsed p) (.parsed p)
  | failed {failure failure' : ParseFailure} :
      (ProjectError.cannotParse failure).kind = (ProjectError.cannotParse failure').kind →
      Matches (.failed failure) (.failed failure')
  | fault (fault : Fault) : Matches (.fault fault) (.fault fault)

theorem ParseResult.Matches.refl (r : ParseResult) : r.Matches r := by
  cases r with
  | parsed p => exact .parsed p
  | failed failure => exact .failed rfl
  | fault fault => exact .fault fault

theorem dropMark_unifyLines (s : Text) : dropMark s.unifyLines = (dropMark s).unifyLines := by
  have hm : IsInLine [byteOrderMark] := by decide
  rw [dropMark, dropMark, startsWith_unifyLines hm]
  split
  · next h => exact drop_unifyLines hm h
  · rfl

theorem dropMark_suffix (s : Text) : dropMark s <:+ s := by
  rw [dropMark]
  split
  · exact List.drop_suffix 1 s
  · exact List.suffix_refl s

theorem checkedText_unifyLines (s : Text) :
    checkedText s.unifyLines = (checkedText s).unifyLines := by
  rw [checkedText, dropMark_unifyLines, dropMark_unifyLines, checkedText]

theorem readDocument_unifyLines (s : Text) : readDocument s.unifyLines = readDocument s := by
  rw [readDocument, unifyLines_unifyLines, readDocument]

/-- Line ends do not matter for what is read from a text. -/
theorem parse_matches_unifyLines {s : Text} (h : ¬ Check.BreaksOff s) :
    (parse s).Matches (parse s.unifyLines) := by
  have hs : ¬ Check.BreaksOff (checkedText s) :=
    Check.not_breaksOff_of_suffix h ((dropMark_suffix _).trans (dropMark_suffix s))
  have hcheck := check_agree hs
  have hread : readDocument (dropMark s.unifyLines) = readDocument (dropMark s) := by
    rw [dropMark_unifyLines, readDocument_unifyLines]
  rw [← checkedText_unifyLines] at hcheck
  generalize hc : check (checkedText s) = e, hc' : check (checkedText s.unifyLines) = e' at hcheck
  cases hcheck with
  | refused r r' =>
    rw [parse_of_refused hc, parse_of_refused hc']
    exact .failed rfl
  | fault fault =>
    rw [parse_of_fault hc, parse_of_fault hc']
    exact .fault fault
  | ok _ =>
    cases hr : readDocument (dropMark s) with
    | error failure =>
      rw [parse_of_unreadable hc hr, parse_of_unreadable hc' (hread.trans hr)]
      exact .failed rfl
    | ok nodes =>
      rw [parse_of_read hc hr, parse_of_read hc' (hread.trans hr)]
      exact .refl _

def mixedLines : Text :=
  "<project\r version='1'>\r\n<!-- \r -->\r<builddir>a\r\nb<![CDATA[\rc]]></builddir>\n\r</project>\r\n"

theorem parse_mixedLines :
    ¬ Check.BreaksOff mixedLines ∧ (parse mixedLines).Matches (parse mixedLines.unifyLines) ∧
      parse mixedLines = .parsed ⟨{ buildDir := "a\nb\nc" }, some "1"⟩ :=
  ⟨by decide +kernel, parse_matches_unifyLines (by decide +kernel), by decide +kernel⟩

/-- For the check the instruction takes in the first root and the start of a comment; for the reader
it ends at once. The text breaks off in a comment that is just long enough. -/
def brokenOff : Text := "<?><project/><!-- ?><project></project><!-->\r\n"

theorem parse_brokenOff :
    Check.BreaksOff brokenOff ∧ parse brokenOff = .parsed ⟨{}, none⟩ ∧
      parse brokenOff.unifyLines =
        .failed (.malformed brokenOff.unifyLines ⟨.textAfterRoot, "-->\n"⟩) ∧
      ¬ (parse brokenOff).Matches (parse brokenOff.unifyLines) := by
  have hp : parse brokenOff = .parsed ⟨{}, none⟩ := by decide +kernel
  have hf : parse brokenOff.unifyLines =
      .failed (.malformed brokenOff.unifyLines ⟨.textAfterRoot, "-->\n"⟩) := by
    decide +kernel
  refine ⟨by decide +kernel, hp, hf, ?_⟩
  rw [hp, hf]
  intro hm
  cases hm

end AnalysisProject.Project
