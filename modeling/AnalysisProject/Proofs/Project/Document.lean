import AnalysisProject.Project.Parse
import AnalysisProject.Project.Canonical
import AnalysisProject.Proofs.Markup.Recovery

namespace AnalysisProject

open CodeUnit Markup Layout

theorem Text.trim_between {s : Text} (hs : s.IsSpace) (t : Text) {a b : CodeUnit}
    (ha : a.isBlank = false) (hb : b.isBlank = false) : Text.trim (s ++ a :: (t ++ [b])) =
      a :: (t ++ [b]) := by
  rw [trim, hs.trimStart_append, trimStart_cons ha, trimEnd]
  simp [hb]

theorem Markup.IsPlainTag.of_sublist {name : Text} (keys : List Text)
    (h : IsPlainTag name (keys.map fun key ↦ (key, []))) {attributes : Attributes}
    (hs : (attributes.map Prod.fst).Sublist keys) : IsPlainTag name attributes := by
  have hkeys : (keys.map fun key ↦ (key, ([] : Text))).map Prod.fst = keys := by
    simp [Function.comp_def]
  obtain ⟨hnames, hnodup⟩ := h
  rw [hkeys] at hnames hnodup
  refine ⟨fun s hm ↦ hnames s ?_, hnodup.sublist hs⟩
  rcases List.mem_cons.mp hm with rfl | hm
  · exact List.mem_cons_self ..
  · exact List.mem_cons_of_mem _ (hs.subset hm)

theorem leaf_isSound {name : Text} {attributes : Attributes} (h : IsPlainTag name attributes)
    (s : Text) (height : Nat) :
    (leaf name attributes s).IsSound height := by
  rw [leaf]
  split
  · exact .empty h
  · next hs => exact .text h (mt List.isEmpty_iff.mpr hs)

theorem Suppression.toNode_isSound (s : Suppression) (height : Nat) : s.toNode.IsSound height := by
  refine leaf_isSound
    (.of_sublist [Suppressions.fileNameAttribute, Suppressions.lineNumberAttribute,
      Suppressions.symbolNameAttribute] (by decide) ?_) _ _
  rw [attributes]
  split <;> split <;> split <;> simp

theorem Layout.ListEntry.itemNode_isSound (field : ListField) (value : Text) (height : Nat) :
    ((ListEntry.canonical field).itemNode value).IsSound height := by
  have hattribute {item : Text} (h : IsPlainTag item [(nameAttribute, [])]) :
      (Node.element item [(nameAttribute, value)] []).IsSound height :=
    .empty (.of_sublist [nameAttribute] h (List.Sublist.refl _))
  cases field
  case includeDirs | defines | checkPaths | excludedPaths => exact hattribute (by decide)
  case undefines | libraries | addons | tags => exact leaf_isSound (by decide) _ _

namespace Project

theorem container_isSound {name : Text} (h : IsPlainTag name []) {items : List Node} {height : Nat}
    (hi : ∀ item ∈ items, item.IsSound height) : ∀ node ∈ container name items,
      node.IsSound (height + 1) := by
  intro node hm
  rw [container] at hm
  split at hm
  · cases hm
  · next hne =>
    rw [List.mem_singleton.mp hm]
    exact .container h (mt List.isEmpty_iff.mpr hne) hi

theorem textNodes_isSound {s : Scalar} (h : IsPlainTag s.element []) (value : Text) (height : Nat) :
    ∀ node ∈ scalarNodes.textNodes s value, node.IsSound height := by
  intro node hm
  rw [scalarNodes.textNodes] at hm
  split at hm
  · cases hm
  · rw [List.mem_singleton.mp hm]
    exact leaf_isSound h value height

theorem scalarNodes_isSound (p : Project) (s : Scalar) (height : Nat) :
    ∀ node ∈ p.scalarNodes s, node.IsSound height := by
  cases s with
  | rootPath =>
    intro node hm
    rw [scalarNodes] at hm
    split at hm
    · cases hm
    · rw [List.mem_singleton.mp hm]
      exact .empty (.of_sublist [nameAttribute] (by decide) (List.Sublist.refl _))
  | buildDir => exact textNodes_isSound (by decide) p.buildDir height
  | platform => exact textNodes_isSound (by decide) p.platform height
  | importProject => exact textNodes_isSound (by decide) p.importProject height
  | analyzeAllVsConfigs =>
    intro node hm
    rw [List.mem_singleton.mp hm]
    exact leaf_isSound (by decide) _ height

theorem sectionNodes_isSound (p : Project) (s : Section) :
    ∀ node ∈ p.sectionNodes s, node.IsSound 1 := by
  cases s with
  | scalar s => exact p.scalarNodes_isSound s 1
  | list field =>
    refine container_isSound (by cases field <;> decide) fun item hm ↦ ?_
    obtain ⟨value, -, rfl⟩ := List.mem_map.mp hm
    exact ListEntry.itemNode_isSound field value 0
  | suppressions =>
    refine container_isSound (by decide) fun item hm ↦ ?_
    obtain ⟨suppression, -, rfl⟩ := List.mem_map.mp hm
    exact suppression.toNode_isSound 0
  | tools =>
    refine container_isSound (by decide) fun item hm ↦ ?_
    obtain ⟨tool, -, rfl⟩ := List.mem_map.mp hm
    exact leaf_isSound (by decide) tool 0

theorem nodes_ne_nil (p : Project) : Section.order.flatMap p.sectionNodes ≠ [] := by
  intro hnil
  have hm : Section.scalar .analyzeAllVsConfigs ∈ Section.order := by decide
  exact List.cons_ne_nil _ _ (List.flatMap_eq_nil_iff.mp hnil _ hm)

theorem nodes_isSound (p : Project) :
    ∀ node ∈ Section.order.flatMap p.sectionNodes, node.IsSound 1 := by
  intro node hm
  obtain ⟨s, -, hs⟩ := List.mem_flatMap.mp hm
  exact p.sectionNodes_isSound s node hs

theorem toNode_isSound (p : Project) : p.toNode.IsSound 2 :=
  .container (.of_sublist [versionAttribute] (by decide) (List.Sublist.refl _)) p.nodes_ne_nil
    p.nodes_isSound

/-- The canonical document with the given gaps, without a byte-order mark. -/
def document (gap : Nat → Text) (p : Project) : Text :=
  declaration ++ lineFeed :: (p.toNode.spell gap 0 ++ [lineFeed])

theorem render_eq_document (unit : Text) (p : Project) :
    p.render unit = byteOrderMark :: p.document (Node.gapOf unit) := by
  have htop : p.toNode.renderTop unit = Node.gapOf unit 0 ++ p.toNode.spell (Node.gapOf unit) 0 :=
    p.toNode_isSound.render_eq_spell unit 0
  have hspace : (Node.gapOf unit 0).IsSpace := by
    intro c hc
    rw [Node.gapOf] at hc
    split at hc
    · cases hc
    · rw [List.mem_singleton.mp hc]
      rfl
  obtain ⟨s, hs⟩ := p.toNode_isSound.exists_spell_eq (Node.gapOf unit) 0
  rw [render, htop, document, hs, Text.trim_between hspace s (by decide) (by decide)]
  simp [Text.join]
  rfl

theorem skipProlog_declaration (s : Text) :
    Check.skipProlog true (declaration ++ s) = Check.skipProlog false s := by
  let body : Text := "xml version=\"1.0\" encoding=\"UTF-8\""
  have htext : declaration ++ s = less :: question :: (body ++ question :: ([greater] ++ s)) := rfl
  have hstart : Text.startsWith "!" (question :: (body ++ question :: ([greater] ++ s))) = false ∧
      Text.startsWith "?" (question :: (body ++ question :: ([greater] ++ s))) = true := ⟨rfl, rfl⟩
  have hafter : Text.afterOrEnd "?>" (body ++ question :: ([greater] ++ s)) = s :=
    congrArg (fun split ↦ (split.map Prod.snd).getD [])
      (Text.splitFirst?_pattern (by decide) [greater] s)
  rw [htext, Check.skipProlog, if_pos rfl, hstart.1, if_neg Bool.false_ne_true, hstart.2,
    if_pos rfl, Bool.not_true, Bool.false_and, if_neg Bool.false_ne_true, List.drop_one,
    List.tail_cons, hafter]

theorem check_document {gap : Nat → Text} (hg : ∀ depth, ∀ c ∈ gap depth, c ≠ less ∧ c ≠ ampersand)
    (p : Project) :
    check (p.document gap) = .ok () := by
  have hspace : Text.IsSpace [lineFeed] := by
    intro c hc
    rw [List.mem_singleton.mp hc]
    rfl
  obtain ⟨rest, progress, hprolog, hrun, hfinish⟩ :=
    Check.run_spell p.toNode_isSound hg 0 hspace false
  have hskip : Check.skipProlog true (p.document gap) = .ok (some rest) := by
    rw [document, skipProlog_declaration, ← hprolog]
    exact Check.skipProlog_isSpace hspace _
  rw [check, hskip]
  simp only [bind, Except.bind, hrun, hfinish]

theorem readDocument_document {gap : Nat → Text}
    (hg : ∀ depth, ∀ c ∈ gap depth, c ≠ less ∧ c ≠ ampersand) (p : Project) :
    Metered .excess p.toNode.weight (((Reading.run {} (p.document gap))).map fun r ↦
      r.cursor.children)
      [p.toNode.spread gap 0] := by
  have hdeclaration :
      (Reading.inside .document [] [] 0).Leads declaration (Reading.inside .document [] [] 0) := by
    refine Reading.leads_of_takeMarkup (Nat.le_refl _) fun hx rest ↦ ?_
    exact .ok _ hx
  have hfeed := Reading.leads_text (Reading.inside .document [] [] 0) (s := [lineFeed]) (by decide)
  have hspell := Reading.leads_spell hg p.toNode_isSound 0 .document [] (s := [lineFeed])
    (by decide) 0 (by decide)
  have hlast := Reading.leads_text
    (Reading.inside (Frame.document.push (p.toNode.spread gap 0)) [] [] (0 + p.toNode.weight))
    (s := [lineFeed]) (by decide)
  have hall := (hdeclaration.trans (hfeed.trans (hspell.trans hlast))).metered (Nat.zero_le _)
  rw [← Nat.zero_add p.toNode.weight]
  exact hall.map fun r ↦ r.cursor.children

end Project

end AnalysisProject
