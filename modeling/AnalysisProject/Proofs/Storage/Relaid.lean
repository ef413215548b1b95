import Mathlib.Data.List.Forall2
import AnalysisProject.Proofs.Project.Indentation
import AnalysisProject.Proofs.Storage.FileTable

namespace AnalysisProject

open Markup Project

variable {unit unit' : Text}

inductive Relaid (unit unit' : Text) : Bytes → Bytes → Prop
  | same (content : Bytes) : Relaid unit unit' content content
  | project (p : Project) : Relaid unit unit' (Utf8.encode (p.render unit))
    (Utf8.encode (p.render unit'))

theorem Relaid.eq {content content' : Bytes} (h : Relaid unit unit content content') :
    content = content' := by
  cases h <;> rfl

theorem Relaid.parse_decode (hunit : ReadsAlike unit unit') {content content' : Bytes}
    (h : Relaid unit unit' content content') : parse (Utf8.decode content) =
      parse (Utf8.decode content') := by
  cases h with
  | same => rfl
  | project p =>
    rw [Utf8.decode_encode, Utf8.decode_encode]
    exact hunit p

namespace FileTable

/-- The same paths, with contents that differ in layout only. -/
structure IsRelaid (unit unit' : Text) (t t' : FileTable) : Prop where
  directories : t.directories = t'.directories
  files : List.Forall₂ (fun file file' ↦ file.1 = file'.1 ∧ Relaid unit unit' file.2 file'.2)
    t.files t'.files

namespace IsRelaid

variable {t t' : FileTable}

theorem refl (unit unit' : Text) (t : FileTable) : t.IsRelaid unit unit' t :=
  ⟨rfl, List.forall₂_same.mpr fun file _ ↦ ⟨rfl, .same file.2⟩⟩

theorem eq (h : t.IsRelaid unit unit t') : t = t' := by
  obtain ⟨directories, files⟩ := t
  obtain ⟨directories', files'⟩ := t'
  obtain ⟨rfl, hfiles⟩ := h
  have heq : files = files' :=
    List.forall₂_eq_eq_eq ▸ hfiles.imp fun file file' hf ↦ Prod.ext hf.1 hf.2.eq
  rw [heq]

variable (h : t.IsRelaid unit unit' t')

include h

theorem content? (path : Text) :
    Option.Rel (Relaid unit unit') (t.content? path) (t'.content? path) := by
  have hfiles := h.files
  rw [FileTable.content?, FileTable.content?]
  generalize t.files = files, t'.files = files' at hfiles
  induction hfiles with
  | nil => exact .none
  | @cons file file' files files' hf _ ih =>
    obtain ⟨key, content⟩ := file
    obtain ⟨key', content'⟩ := file'
    obtain ⟨rfl, hcontent⟩ := hf
    rw [List.lookup_cons, List.lookup_cons]
    cases path == key with
    | true => exact .some hcontent
    | false => exact ih

theorem isFile (path : Text) : t.isFile path = t'.isFile path := by
  have hcontent := h.content? path
  rw [FileTable.isFile, FileTable.isFile]
  generalize t.content? path = content, t'.content? path = content' at hcontent
  cases hcontent <;> rfl

theorem allow (access : Access) (p : AbsolutePath) : t.allow access p = t'.allow access p := by
  rw [FileTable.allow, FileTable.allow, h.directories]
  simp only [h.isFile]

theorem read (p : AbsolutePath) : Parallel (Relaid unit unit') (t.read p) (t'.read p) := by
  have hcontent := h.content? p.text
  rw [FileTable.read, FileTable.read, h.allow]
  cases t'.allow .read p with
  | error e => exact .error e
  | ok _ =>
    generalize t.content? p.text = content, t'.content? p.text = content' at hcontent
    cases hcontent with
    | none => exact .error _
    | some hc => exact .ok hc

theorem put (path : Text) {content content' : Bytes} (hc : Relaid unit unit' content content') :
    (t.put path content).IsRelaid unit unit' (t'.put path content') where
  directories := h.directories
  files := by
    refine .cons ⟨rfl, hc⟩ (List.rel_filter (fun file file' hf ↦ ?_) h.files)
    change (file.1 != path) = true ↔ (file'.1 != path) = true
    rw [hf.1]

theorem readDocument (hunit : ReadsAlike unit unit') (filename : Text) :
    Parallel (fun s s' ↦ parse s = parse s') (t.readDocument filename)
      (t'.readDocument filename) := by
  rw [FileTable.readDocument, FileTable.readDocument, readText, readText]
  cases validatePath filename with
  | error e => exact .error _
  | ok p =>
    have hread := h.read p
    simp only
    generalize t.read p = content, t'.read p = content' at hread
    cases hread with
    | error e => exact .error _
    | ok hc => exact .ok (hc.parse_decode hunit)

theorem writeDocument (filename : Text) (p : Project) :
    Parallel (IsRelaid unit unit') (t.writeDocument filename (p.render unit))
      (t'.writeDocument filename (p.render unit')) := by
  rw [FileTable.writeDocument, FileTable.writeDocument, writeText, writeText]
  cases validatePath filename with
  | error e => exact .error _
  | ok path =>
    simp only [write, h.allow]
    cases t'.allow .write path with
    | error e => exact .error _
    | ok _ => exact .ok (h.put path.text (.project p))

end IsRelaid
end FileTable
end AnalysisProject
