import AnalysisProject.Proofs.Project.Indentation
import AnalysisProject.Proofs.Session.Effect

namespace AnalysisProject

open CodeUnit Markup Layout

namespace Project

/-- Reading a document after it has been encoded and decoded, which may have changed the gaps only.
-/
theorem parse_repair_render {unit : Text} (hu : IsIndentation unit) {p : Project}
    (hp : ∀ s ∈ p.texts, s.isWellFormed = true) :
    (p.toNode.weight ≤ Expansion.maxCount →
      parse (p.render unit).repair = .parsed ⟨p.normalize, some version⟩) ∧
    (Expansion.maxCount < p.toNode.weight → ∃ n, Expansion.maxCount < n ∧
      parse (p.render unit).repair = .failed (.unreadable (.excess n))) := by
  have hself : p.mapTexts Text.repair = p :=
    mapTexts_eq_self fun s hs ↦ Text.repair_eq_self (hp s hs)
  rw [repair_render, hself]
  exact parse_document (repair_gapOf_ne hu) p

end Project

namespace Session

open Project

variable {s : Session} {files : FileTable} {filename : Option Text}

theorem writeDocument_of_save (h : (s.save files filename).result = .ok ()) :
    files.writeDocument (s.retarget filename).filename (s.project.render s.settings.indentBy) =
      .ok (s.save files filename).files := by
  rw [save, Draft.save_ofProject, project_retarget, settings_retarget] at h ⊢
  cases hw : files.writeDocument (s.retarget filename).filename
      (s.project.render s.settings.indentBy) with
  | error e =>
    simp only [hw] at h
    cases h
  | ok t => rfl

theorem reopen_eq {g text : Text} (other : Session) (h : files.readDocument g = .ok text) :
    (∀ p, parse text = .parsed p →
      (other.reopen files g).result = .ok () ∧ (other.reopen files g).session.project = p.project) ∧
    ∀ failure, parse text = .failed failure →
      (other.reopen files g).result = .error (.error (.cannotParse failure)) := by
  have hload : files.readDocument
    (Session.retarget { filename := g, settings := other.settings } none).filename =
      .ok text := h
  rw [reopen, load, hload]
  constructor
  · intro p hp
    simp only [hp, and_self]
  · intro failure hf
    simp only [hf]

theorem reopen_of_save (hu : IsIndentation s.settings.indentBy)
    (hs : ∀ t ∈ s.project.texts, t.isWellFormed = true)
    (h : (s.save files filename).result = .ok ()) {g : Text}
    (hg : validatePath g = validatePath (s.retarget filename).filename) (other : Session) :
    (s.project.toNode.weight ≤ Expansion.maxCount →
      (other.reopen (s.save files filename).files g).result = .ok () ∧
        (other.reopen (s.save files filename).files g).session.project = s.project.normalize) ∧
    (Expansion.maxCount < s.project.toNode.weight → ∃ n, Expansion.maxCount < n ∧
      (other.reopen (s.save files filename).files g).result =
        .error (.error (.cannotParse (.unreadable (.excess n))))) := by
  have hread := FileTable.readDocument_of_writeDocument hg (writeDocument_of_save h)
  obtain ⟨hparsed, hfailed⟩ := reopen_eq other hread
  obtain ⟨hok, herror⟩ := parse_repair_render hu hs
  constructor
  · exact fun hw ↦ hparsed _ (hok hw)
  · intro hw
    obtain ⟨n, hn, hp⟩ := herror hw
    exact ⟨n, hn, hfailed _ hp⟩

/-- A document that has been saved can be loaded again exactly if not too many references in it
count. Then the project comes back, up to what a document cannot hold. -/
theorem reopen_result_eq_ok_iff (hu : IsIndentation s.settings.indentBy)
    (hs : ∀ t ∈ s.project.texts, t.isWellFormed = true)
    (h : (s.save files filename).result = .ok ()) {g : Text}
    (hg : validatePath g = validatePath (s.retarget filename).filename) (other : Session) :
    ((other.reopen (s.save files filename).files g).result = .ok () ↔
      Text.countAll Reference.counted (s.project.render s.settings.indentBy) ≤ Expansion.maxCount) ∧
    ((other.reopen (s.save files filename).files g).result = .ok () →
      (other.reopen (s.save files filename).files g).session.project = s.project.normalize) ∧
    ((other.reopen (s.save files filename).files g).result ≠ .ok () → ∃ n, Expansion.maxCount < n ∧
      (other.reopen (s.save files filename).files g).result =
        .error (.error (.cannotParse (.unreadable (.excess n))))) := by
  obtain ⟨hok, herror⟩ := reopen_of_save hu hs h hg other
  rw [countAll_render hu.2]
  by_cases hw : s.project.toNode.weight ≤ Expansion.maxCount
  · obtain ⟨hr, hp⟩ := hok hw
    exact ⟨iff_of_true hr hw, fun _ ↦ hp, fun hn ↦ absurd hr hn⟩
  · obtain ⟨n, hn, he⟩ := herror (Nat.lt_of_not_le hw)
    have hne : (other.reopen (s.save files filename).files g).result ≠ .ok () := by rw [he]; nofun
    exact ⟨iff_of_false hne hw, fun hr ↦ absurd hr hne, fun _ ↦ ⟨n, hn, he⟩⟩

def noFiles : FileTable := ⟨FileTable.standing, []⟩

def edited : Session where
  project :=
    { rootPath := "a\r\nb", tags := ["<&>"]
      suppressions := [{ errorId := "e", lineNumber := .integer 0 }] }
  settings := { indentBy := "\t" }

/-- A file that is loaded under another name than the one it was saved under. -/
theorem reopen_edited :
    (IsIndentation edited.settings.indentBy ∧ (∀ t ∈ edited.project.texts, t.isWellFormed = true) ∧
      (edited.save noFiles (some "sub/../a.xml")).result = .ok () ∧
      validatePath "/work/proj/a.xml" =
        validatePath (edited.retarget (some "sub/../a.xml")).filename) ∧
    (Session.reopen {} (edited.save noFiles (some "sub/../a.xml")).files
      "/work/proj/a.xml").result = .ok () ∧
      (Session.reopen {} (edited.save noFiles (some "sub/../a.xml")).files
        "/work/proj/a.xml").session.project =
        { rootPath := "a\nb", tags := ["<&>"], suppressions := [{ errorId := "e" }] } := by
  have hu : IsIndentation edited.settings.indentBy := by decide
  have hs : ∀ t ∈ edited.project.texts, t.isWellFormed = true := by decide
  have h : (edited.save noFiles (some "sub/../a.xml")).result = .ok () := rfl
  have hg : validatePath "/work/proj/a.xml" =
    validatePath (edited.retarget (some "sub/../a.xml")).filename := rfl
  have hcount : Text.countAll Reference.counted (edited.project.render edited.settings.indentBy) ≤
      Expansion.maxCount := by
    decide +kernel
  obtain ⟨hiff, hproject, -⟩ := reopen_result_eq_ok_iff hu hs h hg {}
  have hnormal : edited.project.normalize =
      { rootPath := "a\nb", tags := ["<&>"], suppressions := [{ errorId := "e" }] } := by decide
  have hok := hiff.mpr hcount
  exact ⟨⟨hu, hs, h, hg⟩, hok, (hproject hok).trans hnormal⟩

def crowded (n : Nat) : Session := { project := { tags := [List.replicate n greater] } }

theorem weight_crowded (n : Nat) : (crowded n).project.toNode.weight = n := by
  have hnode : (crowded n).project.toNode = .element rootElement [(versionAttribute, version)]
      [leaf Scalar.analyzeAllVsConfigs.element [] "true",
        .element "tags" [] [leaf "tag" [] (List.replicate n greater)]] :=
    rfl
  have hconst : Reference.weight version = 0 ∧ Reference.weight "true" = 0 := by decide
  have hleaf (name s : Text) : (leaf name [] s).weight = Reference.weight s := by
    rw [leaf]
    cases s with
    | nil => simp [Node.weight, Attributes.weight, Reference.weight]
    | cons c s => simp [Node.weight, Attributes.weight]
  have hcount : Reference.weight (List.replicate n greater) = n := by
    rw [Reference.weight, List.countP_replicate, if_pos (by decide)]
  rw [hnode, Node.weight, Attributes.weight]
  simp only [List.map_cons, List.map_nil, List.foldr_cons, List.foldr_nil, Node.weight,
    Attributes.weight, hleaf, hconst, hcount, Nat.zero_add, Nat.add_zero]

theorem reopen_crowded :
    ((crowded 1001).save noFiles (some "a.xml")).result = .ok () ∧ ∃ n, Expansion.maxCount < n ∧
      (Session.reopen {} ((crowded 1001).save noFiles (some "a.xml")).files "a.xml").result =
        .error (.error (.cannotParse (.unreadable (.excess n)))) := by
  have hs : ∀ t ∈ (crowded 1001).project.texts, t.isWellFormed = true := by decide +kernel
  have h : ((crowded 1001).save noFiles (some "a.xml")).result = .ok () := rfl
  have hw : Expansion.maxCount < (crowded 1001).project.toNode.weight := by
    rw [weight_crowded]
    decide
  exact ⟨h, (reopen_of_save (by decide) hs h rfl {}).2 hw⟩

end Session
end AnalysisProject
