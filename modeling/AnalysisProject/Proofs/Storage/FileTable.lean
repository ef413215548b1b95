import AnalysisProject.Proofs.Storage.Path
import AnalysisProject.Proofs.Text.Utf8
import AnalysisProject.Storage.Document

namespace AnalysisProject

open CodeUnit

namespace AbsolutePath

theorem text_ne_of_mem_ancestors {p q : AbsolutePath} (hp : p.IsNormal) (hq : q ∈ p.ancestors) :
    q.text ≠ p.text := by
  obtain ⟨n, hn, rfl⟩ := List.mem_map.mp hq
  have hlt := List.mem_range.mp hn
  intro he
  have hsegments := congrArg segments (text_injOn (fun s hs ↦ hp s (List.mem_of_mem_take hs)) hp he)
  have hlen := congrArg List.length hsegments
  rw [List.length_take] at hlen
  omega

end AbsolutePath

namespace FileTable

theorem content?_put_self (t : FileTable) (path : Text) (content : Bytes) :
    (t.put path content).content? path = some content := by
  rw [content?, put, List.lookup_cons_self]

theorem content?_put_of_ne (t : FileTable) {path other : Text} (h : other ≠ path)
    (content : Bytes) :
    (t.put path content).content? other = t.content? other := by
  have hfilter (files : List (Text × Bytes)) :
      (files.filter fun file ↦ file.1 != path).lookup other = files.lookup other := by
    induction files with
    | nil => rfl
    | cons file files ih =>
      obtain ⟨key, bytes⟩ := file
      by_cases hk : key = path
      · have ho : (other == key) = false := by simpa [hk] using h
        rw [List.filter_cons_of_neg (by simpa using hk), ih, List.lookup_cons, ho]
      · rw [List.filter_cons_of_pos (by simpa using hk), List.lookup_cons, List.lookup_cons, ih]
  have ho : (other == path) = false := by simpa using h
  rw [content?, put, List.lookup_cons, ho]
  exact hfilter t.files

theorem read_of_write {t t' : FileTable} {p : AbsolutePath} (hp : p.IsNormal) {content : Bytes}
    (h : t.write p content = .ok t') : t'.read p = .ok content := by
  rw [write, allow] at h
  split at h
  · cases h
  · next hd =>
    split at h
    · cases h
    · next ha =>
      split at h
      · next hparent =>
        cases h
        -- The file that has come in stands on none of the directories above it.
        have hfree : p.ancestors.any ((t.put p.text content).isFile ·.text) = false := by
          rw [List.any_eq_false]
          intro q hq
          rw [isFile, content?_put_of_ne t (AbsolutePath.text_ne_of_mem_ancestors hp hq)]
          exact fun hf ↦ ha (List.any_eq_true.mpr ⟨q, hq, hf⟩)
        have hallow : (t.put p.text content).allow .read p = .ok () := by
          have hdirs : (t.put p.text content).directories = t.directories := rfl
          rw [allow, hfree, hdirs, if_neg hd, if_neg Bool.false_ne_true, if_pos hparent]
        rw [read, hallow, content?_put_self]
      · cases h

/-- A document that has been written is read under every name of the same path, with its surrogates
repaired. -/
theorem readDocument_of_writeDocument {t t' : FileTable} {filename other s : Text}
    (ho : validatePath other = validatePath filename) (h : t.writeDocument filename s = .ok t') :
    t'.readDocument other = .ok s.repair := by
  rw [writeDocument, writeText] at h
  cases hp : validatePath filename with
  | error e =>
    rw [hp] at h
    cases h
  | ok p =>
    rw [hp] at h
    cases hw : t.write p (Utf8.encode s) with
    | error e =>
      simp only [hw] at h
      cases h
    | ok t₁ =>
      simp only [hw] at h
      cases h
      have hread := read_of_write (isNormal_of_validatePath hp) hw
      rw [readDocument, readText, ho, hp]
      simp only [hread, Utf8.decode_encode]
      rfl

end FileTable

namespace Draft

theorem project?_ofProject (p : Project) : (ofProject p).project? = some p := by
  have hset (field : ListField) : p.setList (p.list field) field = p := by cases field <;> rfl
  have hfold (fields : List ListField) :
      fields.foldlM (fun q field ↦ ((ofProject p).list field).map (q.setList · field)) p =
        some p := by
    induction fields with
    | nil => rfl
    | cons field fields ih =>
      rw [List.foldlM_cons, ofProject, Option.map_some, hset]
      exact ih
  rw [project?]
  exact congrArg (Option.map fun q : Project ↦ { q with suppressions := p.suppressions })
    (hfold ListField.all)

theorem save_ofProject (t : FileTable) (filename unit : Text) (p : Project) :
    t.save filename unit (ofProject p) = t.writeDocument filename (p.render unit) := by
  rw [FileTable.save, render, project?_ofProject]

end Draft
end AnalysisProject
