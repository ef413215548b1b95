import AnalysisProject.Proofs.Project.Settled

namespace AnalysisProject

open CodeUnit Markup Layout

namespace Project

theorem countAll_render {unit : Text} (hu : ampersand ∉ unit) (p : Project) :
    Text.countAll Reference.counted (p.render unit) = p.toNode.weight := by
  have hgap : ∀ depth, ampersand ∉ Node.gapOf unit depth := by
    intro depth hm
    rcases Node.mem_gapOf unit hm with h | h
    · exact absurd h (by decide)
    · exact hu h
  have hstart : ampersand ∉ byteOrderMark :: (declaration ++ [lineFeed]) := by decide
  have hlast : Text.countAll Reference.counted [lineFeed] = 0 := by decide
  have htext : p.render unit = (byteOrderMark :: (declaration ++ [lineFeed])) ++
      (p.toNode.spell (Node.gapOf unit) 0 ++ [lineFeed]) := by
    rw [render_eq_document, document, List.cons_append, List.append_assoc]
    rfl
  rw [htext, Reference.beginWith_counted.countAll_append hstart,
    p.toNode_isSound.countAll_spell_append hgap, hlast, Nat.add_zero]

theorem ofDocument_spread (gap : Nat → Text) (p : Project) :
    ofDocument [p.toNode.spread gap 0] = .parsed ⟨p.stored, some version⟩ := by
  have hname : (p.toNode.spread gap 0).name? = some rootElement := by
    rw [Node.name?_spread, toNode, Node.name?_element (by decide)]
  have hversion : (p.toNode.spread gap 0).attribute? versionAttribute = some version := by
    rw [toNode, Node.spread]
    rfl
  have hfind : [p.toNode.spread gap 0].find? (·.name?.isSome) = some (p.toNode.spread gap 0) := by
    rw [List.find?_cons_of_pos]
    rw [hname]
    rfl
  rw [ofDocument, hfind]
  simp only [hname, hversion, ofNode_spread, beq_self_eq_true, if_true]

theorem readDocument_eq (gap : Nat → Text) (p : Project) :
    readDocument (p.document gap) =
      (Reading.run {} ((p.mapTexts Text.unifyLines).document
        fun depth ↦ (gap depth).unifyLines)).map fun r ↦ r.cursor.children := by
  rw [readDocument, Text.unifyLines_seamless.document]

/-- Reading a document gives the project back, unless too many references in it count. -/
theorem parse_document {gap : Nat → Text} (hg : ∀ depth, ∀ c ∈ gap depth, c ≠ less ∧ c ≠ ampersand)
    (p : Project) :
    (p.toNode.weight ≤ Expansion.maxCount →
      parse (byteOrderMark :: p.document gap) = .parsed ⟨p.normalize, some version⟩) ∧
    (Expansion.maxCount < p.toNode.weight → ∃ n, Expansion.maxCount < n ∧
      parse (byteOrderMark :: p.document gap) = .failed (.unreadable (.excess n))) := by
  have hgap : ∀ depth, ∀ c ∈ (gap depth).unifyLines, c ≠ less ∧ c ≠ ampersand :=
    fun depth ↦ Text.unifyLines_seamless.forall_mem_ne (hg depth)
  have hweight : (p.mapTexts Text.unifyLines).toNode.weight = p.toNode.weight := by
    rw [← Text.unifyLines_seamless.toNode, Text.unifyLines_seamless.weight_mapTexts]
  obtain ⟨hok, herror⟩ := readDocument_document hgap (p.mapTexts Text.unifyLines)
  rw [hweight, ← readDocument_eq] at hok herror
  have hcheck : check (checkedText (byteOrderMark :: p.document gap)) = .ok () :=
    check_document hg p
  constructor
  · intro hle
    exact (parse_of_read hcheck (hok hle)).trans (ofDocument_spread _ _)
  · intro hlt
    obtain ⟨n, hn, he⟩ := herror hlt
    exact ⟨n, hn, parse_of_unreadable hcheck he⟩

def IsIndentation (unit : Text) : Prop := less ∉ unit ∧ ampersand ∉ unit

instance (unit : Text) : Decidable (IsIndentation unit) :=
  inferInstanceAs (Decidable (less ∉ unit ∧ ampersand ∉ unit))

theorem gapOf_ne {unit : Text} (hu : IsIndentation unit) :
    ∀ depth, ∀ c ∈ Node.gapOf unit depth, c ≠ less ∧ c ≠ ampersand := by
  intro depth c hc
  rcases Node.mem_gapOf unit hc with rfl | hc
  · exact ⟨by decide, by decide⟩
  · exact ⟨fun h ↦ hu.1 (h ▸ hc), fun h ↦ hu.2 (h ▸ hc)⟩

theorem parse_render {unit : Text} (hu : IsIndentation unit) {p : Project}
    (h : p.toNode.weight ≤ Expansion.maxCount) :
    parse (p.render unit) = .parsed ⟨p.normalize, some version⟩ := by
  rw [render_eq_document]
  exact (parse_document (gapOf_ne hu) p).1 h

/-- Reading undoes writing, up to what a document cannot hold, and whatever the indentation is. -/
theorem parse_render_eq_normalize {unit : Text} (hu : IsIndentation unit) (p : Project)
    (h : Text.countAll Reference.counted (p.render unit) ≤ Expansion.maxCount) :
    parse (p.render unit) = .parsed ⟨p.normalize, some version⟩ ∧
      (∀ other, IsIndentation other → parse (p.render other) = parse (p.render unit)) ∧
      (p.IsSettled → p.normalize = p) := by
  rw [countAll_render hu.2] at h
  refine ⟨parse_render hu h, fun other ho ↦ ?_, fun hp ↦ hp.normalize_eq_self⟩
  rw [parse_render hu h, parse_render ho h]

/-- A project whose texts look like markup, with carriage returns and with a line number that no
document can hold. -/
def awkward : Project where
  rootPath := "a\r\nb\rc"
  buildDir := " <b> &lt; ]]> \"'>"
  excludedPaths := ["", "&amp;"]
  suppressions :=
    [{ errorId := "<e/>", lineNumber := .integer 0 }, { errorId := "", lineNumber := .integer 7 }]

theorem parse_render_awkward :
    (IsIndentation "\t" ∧
      Text.countAll Reference.counted (awkward.render "\t") ≤ Expansion.maxCount) ∧
      parse (awkward.render "\t") = .parsed ⟨awkward.normalize, some version⟩ ∧
      awkward.normalize =
        { awkward with
          rootPath := "a\nb\nc"
          suppressions :=
            [{ errorId := "<e/>" }, { errorId := "", lineNumber := .integer 7 }] } := by
  have hu : IsIndentation "\t" := by decide
  have hcount : Text.countAll Reference.counted (awkward.render "\t") ≤ Expansion.maxCount := by
    decide +kernel
  exact ⟨⟨hu, hcount⟩, (parse_render_eq_normalize hu awkward hcount).1, by decide +kernel⟩

def rewrite (unit s : Text) : Option Text :=
  match parse s with
  | .parsed q => some (q.project.render unit)
  | _ => none

/-- What has been read once is kept as it is from then on: writing and reading it again changes
nothing, and so does rewriting a document twice. -/
theorem parse_render_of_parse {s : Text} {q : Parsed} (h : parse s = .parsed q) :
    q.project.IsSettled ∧ ∀ unit, IsIndentation unit →
      Text.countAll Reference.counted (q.project.render unit) ≤ Expansion.maxCount →
      parse (q.project.render unit) = .parsed ⟨q.project, some version⟩ ∧
        ∀ t, rewrite unit s = some t → rewrite unit t = some t := by
  have hq := isSettled_of_parse h
  refine ⟨hq, fun unit hu hcount ↦ ?_⟩
  rw [countAll_render hu.2] at hcount
  have hparse := parse_render hu hcount
  rw [hq.normalize_eq_self] at hparse
  refine ⟨hparse, fun t ht ↦ ?_⟩
  rw [rewrite, h, Option.some.injEq] at ht
  rw [← ht, rewrite, hparse]

def legacyDocument : Text :=
  "<!DOCTYPE project [<!ENTITY e \"x\r\ny\">]>\r\n<project><!-- c --><ignore><path name=\"&e;\"/></ignore>"
    ++ "<ignore><path name=\"b\"/></ignore><builddir><![CDATA[a<b]]></builddir></project>"

theorem parse_render_of_parse_legacyDocument :
    parse legacyDocument = .parsed ⟨{ excludedPaths := ["x\ny", "b"], buildDir := "a<b" }, none⟩ ∧
      parse (({ excludedPaths := ["x\ny", "b"], buildDir := "a<b" } : Project).render "") =
        .parsed ⟨{ excludedPaths := ["x\ny", "b"], buildDir := "a<b" }, some version⟩ := by
  have h : parse legacyDocument =
      .parsed ⟨{ excludedPaths := ["x\ny", "b"], buildDir := "a<b" }, none⟩ := by
    decide +kernel
  exact ⟨h, ((parse_render_of_parse h).2 "" (by decide) (by decide +kernel)).1⟩

end Project
end AnalysisProject
