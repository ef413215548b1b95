import AnalysisProject.Proofs.Markup.Pieces
import AnalysisProject.Proofs.Project.Parse

namespace AnalysisProject.Project

open Text Markup

/-- The check goes by one mark, too, and nothing in the document comes out as different pieces for
it and the reader. -/
def IsPlain (s : Text) : Prop :=
  checkedText s = dropMark s ∧ ∀ piece ∈ Check.outline true (checkedText s), piece.IsPlain

instance (s : Text) : Decidable (IsPlain s) := inferInstanceAs (Decidable (_ ∧ _))

def top (s : Text) : List Item :=
  Item.top 0 ((Reading.outline (dropMark s).unifyLines).map Piece.item)

theorem check_of_parse_eq_parsed {s : Text} {q : Parsed} (h : parse s = .parsed q) :
    check (checkedText s) = .ok () := by
  cases hc : check (checkedText s) with
  | error failure =>
    cases failure with
    | fault fault => cases h.symm.trans (parse_of_fault hc)
    | refused refusal => cases h.symm.trans (parse_of_refused hc)
  | ok _ => rfl

/-- The check and the reader agree on the pieces of a plain document, and so on what stands in no
element. -/
theorem top_eq_of_parse {s : Text} {q : Parsed} (h : parse s = .parsed q) (hs : IsPlain s) :
    Item.top 0 ((Check.outline true (checkedText s)).map Piece.item) = top s := by
  obtain ⟨nodes, -, hread, -⟩ := exists_of_parse_eq_parsed h
  rw [← hs.1] at hread
  rw [top, ← hs.1, ← outline_of_check (check_of_parse_eq_parsed h) hread hs.2, List.map_map]
  rfl

/-- A plain document that is read has one element at its top, and nothing to read beside it, exactly
if it is not loose. -/
theorem isSingleRooted_iff_of_parse {s : Text} {q : Parsed} (h : parse s = .parsed q)
    (hs : IsPlain s) :
    ∃ nodes root, readDocument (dropMark s) = .ok nodes ∧ root ∈ nodes ∧ q.project = ofNode root ∧
      nodes.countP Node.isElement = (top s).countP Item.begins ∧
      (nodes.countP Node.isElement = 1 ∧ IsSingleRooted (top s) ↔ ¬ IsLoose (top s)) := by
  obtain ⟨nodes, root, hread, hroot, hq⟩ := exists_of_parse_eq_parsed h
  obtain ⟨stage, hne, hfold⟩ := Check.exists_foldlM_of_check (check_of_parse_eq_parsed h)
  rw [top_eq_of_parse h hs] at hfold
  have hcount : nodes.countP Node.isElement = (top s).countP Item.begins :=
    countP_isElement_of_readDocument hread (Stage.closing_not_mem hfold)
  have hstray : Item.stray ∉ top s := by
    obtain ⟨r, hrun, -⟩ := exists_of_map_eq_ok hread
    exact fun hm ↦ Reading.stray_not_mem_of_run hrun (Item.top_subset 0 _ hm)
  have hiff := Stage.isSingleRooted_iff hfold hne hstray
  refine ⟨nodes, root, hread, hroot, hq, hcount, ?_⟩
  rw [← hiff, hcount]
  exact ⟨And.right, fun hsingle ↦ ⟨hsingle.1, hsingle⟩⟩

def commented : Text :=
  Text.join ["<?xml version=\"1.0\"?>\r\n<!-- <b/> --><project note='/>'>",
    "<tags><tag>a</tag><tag/></tags></project>\n<!-- </b> -->"]

theorem isSingleRooted_commented :
    parse commented = .parsed ⟨{ tags := ["a", ""] }, none⟩ ∧ IsPlain commented ∧
      ¬ IsLoose (top commented) ∧
      IsSingleRooted (top commented) := by
  have hp : parse commented = .parsed ⟨{ tags := ["a", ""] }, none⟩ := by decide +kernel
  have hs : IsPlain commented := by decide +kernel
  have hl : ¬ IsLoose (top commented) := by decide +kernel
  obtain ⟨nodes, root, -, -, -, -, hiff⟩ := isSingleRooted_iff_of_parse hp hs
  exact ⟨hp, hs, hl, (hiff.mpr hl).2⟩

/-- Two roots, neither of which is opened. -/
def twoRoots : Text := "<project/><b/>"

theorem parse_twoRoots :
    parse twoRoots = .parsed ⟨{}, none⟩ ∧ IsPlain twoRoots ∧
      (readDocument (dropMark twoRoots)).map (fun nodes ↦ nodes.countP Node.isElement) = .ok 2 ∧
      ¬ IsSingleRooted (top twoRoots) := by
  refine ⟨?_, ?_, ?_, ?_⟩ <;> decide +kernel

end AnalysisProject.Project
