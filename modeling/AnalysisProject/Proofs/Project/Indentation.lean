import AnalysisProject.Proofs.Markup.Gaps
import AnalysisProject.Proofs.Project.RoundTrip
import AnalysisProject.Proofs.Text.Utf8

namespace AnalysisProject.Project

open CodeUnit Markup Layout

section Gaps

variable {gap gap' : Nat → Text} (hg : ∀ depth, ∀ c ∈ gap depth, c ≠ less ∧ c ≠ ampersand)
  (hg' : ∀ depth, ∀ c ∈ gap' depth, c ≠ less ∧ c ≠ ampersand)

include hg hg'

theorem parallel_document (p : Project) :
    Parallel (fun _ _ ↦ True) (Reading.run {} (p.document gap))
      (Reading.run {} (p.document gap')) := by
  have hrun (s : Text) : Reading.run {} (declaration ++ lineFeed :: s) =
      (Reading.amid .document [] [lineFeed] {}).run s := by
    have hdeclaration : Reading.run {} (declaration ++ lineFeed :: s) =
        Reading.run {} (lineFeed :: s) :=
      Reading.run_less _ _
    rw [hdeclaration]
    exact Reading.run_text_amid .document [] {} (s := [lineFeed]) (by decide) s
  have hlast : Reading.GoOnAlike (fun _ _ ↦ True) [] [] [lineFeed] [lineFeed] := by
    intro f f' x
    have h (f : Frame) :
        (Reading.amid f [] [] x).run [lineFeed] = .ok (Reading.amid f [] [lineFeed] x) := by
      have htext := Reading.run_text_amid f [] x (s := [lineFeed]) (by decide) []
      rwa [List.append_nil, Reading.run] at htext
    rw [h, h]
    exact .ok trivial
  have hfeed : ampersand ∉ [lineFeed] := by decide
  rw [document, document, hrun, hrun]
  exact Reading.parallel_spell hg hg' p.toNode_isSound 0 rfl hlast _ _ _ hfeed hfeed

theorem parse_document_gap (p : Project) :
    parse (byteOrderMark :: p.document gap) = parse (byteOrderMark :: p.document gap') := by
  have hgap : ∀ depth, ∀ c ∈ (gap depth).unifyLines, c ≠ less ∧ c ≠ ampersand :=
    fun depth ↦ Text.unifyLines_seamless.forall_mem_ne (hg depth)
  have hgap' : ∀ depth, ∀ c ∈ (gap' depth).unifyLines, c ≠ less ∧ c ≠ ampersand :=
    fun depth ↦ Text.unifyLines_seamless.forall_mem_ne (hg' depth)
  have hcheck : check (checkedText (byteOrderMark :: p.document gap)) = .ok () :=
    check_document hg p
  have hcheck' : check (checkedText (byteOrderMark :: p.document gap')) = .ok () :=
    check_document hg' p
  obtain ⟨hok, herror⟩ := readDocument_document hgap (p.mapTexts Text.unifyLines)
  obtain ⟨hok', -⟩ := readDocument_document hgap' (p.mapTexts Text.unifyLines)
  have hread : Parallel (fun _ _ ↦ True) (readDocument (p.document gap))
      (readDocument (p.document gap')) := by
    rw [readDocument_eq, readDocument_eq]
    exact (parallel_document hgap hgap' _).map fun _ _ _ ↦ trivial
  rw [← readDocument_eq] at hok hok' herror
  by_cases hw : (p.mapTexts Text.unifyLines).toNode.weight ≤ Expansion.maxCount
  · rw [parse_of_read hcheck (hok hw), parse_of_read hcheck' (hok' hw), ofDocument_spread,
      ofDocument_spread]
  · obtain ⟨n, -, hn⟩ := herror (Nat.lt_of_not_le hw)
    rw [parse_of_unreadable hcheck hn, parse_of_unreadable hcheck' (hread.eq_error hn)]

end Gaps

variable {unit unit' : Text}

theorem repair_render (unit : Text) (p : Project) : (p.render unit).repair =
    byteOrderMark :: (p.mapTexts Text.repair).document fun depth ↦
      (Node.gapOf unit depth).repair := by
  have hmark : byteOrderMark.isHighSurrogate = false := rfl
  rw [render_eq_document, Text.repair_alone fun d _ ↦ by simp [hmark],
    Text.repair_seamless.document]
  rfl

theorem repair_gapOf_ne (hu : IsIndentation unit) :
    ∀ depth, ∀ c ∈ (Node.gapOf unit depth).repair, c ≠ less ∧ c ≠ ampersand :=
  fun depth ↦ Text.repair_seamless.forall_mem_ne (gapOf_ne hu depth)

/-- Documents in two layouts are read alike after they have been encoded and decoded. -/
def ReadsAlike (unit unit' : Text) : Prop := ∀ p :
    Project, parse (p.render unit).repair = parse (p.render unit').repair

theorem ReadsAlike.refl (unit : Text) : ReadsAlike unit unit := fun _ ↦ rfl

theorem IsIndentation.readsAlike (hu : IsIndentation unit) (hu' : IsIndentation unit') :
    ReadsAlike unit unit' := by
  intro p
  rw [repair_render, repair_render]
  exact parse_document_gap (repair_gapOf_ne hu) (repair_gapOf_ne hu') _

end AnalysisProject.Project
