import AnalysisProject.Proofs.Except
import AnalysisProject.Value.Json

namespace AnalysisProject

open Json

namespace Value

theorem writeFields_ofTexts_append (around : List Enclosure) (texts : List (Text × Text))
    (fields : List (Text × Value)) :
    writeFields around (ofTexts texts ++ fields) =
      (writeFields around fields).map ((texts.map fun (key, s) ↦ (key, string s)) ++ ·) := by
  induction texts with
  | nil => cases h : writeFields around fields <;> simp [ofTexts, h, Except.map]
  | cons entry texts ih =>
    simp only [ofTexts] at ih
    simp only [ofTexts, List.map_cons, List.cons_append, writeFields, write, ih]
    cases writeFields around fields <;> rfl

theorem writeFields_ofTexts (around : List Enclosure) (texts : List (Text × Text)) :
    writeFields around (ofTexts texts) = .ok (texts.map fun (key, s) ↦ (key, string s)) := by
  have h := writeFields_ofTexts_append around texts []
  rw [List.append_nil] at h
  simp [h, writeFields, Except.map]

theorem jsonRecord_ofTexts (texts : List (Text × Text)) :
    jsonRecord (ofTexts texts) = .ok (Json.texts texts) := by
  rw [jsonRecord, writeFields_ofTexts]
  rfl

/-- The value holds an integer of any size, or one of the lists and records that it is in. -/
inductive Defies : Value → Prop
  | bigint (n : Int) : Defies (.bigint n)
  | enclosing (levels : Nat) : Defies (.enclosing levels)
  | item {v : Value} {items : List Value} : v ∈ items → Defies v → Defies (.list items)
  | field {key : Text} {v : Value} {fields : List (Text × Value)} :
      (key, v) ∈ fields → Defies v → Defies (.record fields)

theorem defies_list {items : List Value} : (list items).Defies ↔ ∃ v ∈ items, v.Defies := by
  constructor
  · rintro (_ | _ | ⟨hm, hv⟩)
    exact ⟨_, hm, hv⟩
  · rintro ⟨v, hm, hv⟩
    exact .item hm hv

theorem defies_record {fields : List (Text × Value)} :
    (record fields).Defies ↔ ∃ field ∈ fields, field.2.Defies := by
  constructor
  · rintro (_ | _ | _ | ⟨hm, hv⟩)
    exact ⟨_, hm, hv⟩
  · rintro ⟨⟨key, v⟩, hm, hv⟩
    exact .field hm hv

mutual

theorem write_eq_error_iff (around : List Enclosure) (place : Place) :
    ∀ v : Value, (∃ e, write around place v = .error e) ↔ v.Defies
  | .null | .bool _ | .number _ | .text _ | .undefined => by
    refine iff_of_false ?_ nofun
    simp [write]
  | .bigint n => iff_of_true ⟨_, rfl⟩ (.bigint n)
  | .enclosing levels => iff_of_true ⟨_, rfl⟩ (.enclosing levels)
  | .list items => by rw [write, exists_error_map_iff, writeItems_eq_error_iff, defies_list]
  | .record fields => by rw [write, exists_error_map_iff, writeFields_eq_error_iff, defies_record]

theorem writeItems_eq_error_iff (around : List Enclosure) (n : Nat) :
    ∀ items : List Value, (∃ e, writeItems around n items = .error e) ↔ ∃ v ∈ items, v.Defies
  | [] => by simp [writeItems]
  | v :: items => by
    rw [writeItems, exists_error_bind_iff, write_eq_error_iff, writeItems_eq_error_iff]
    simp

theorem writeFields_eq_error_iff (around : List Enclosure) :
    ∀ fields : List (Text × Value), (∃ e, writeFields around fields = .error e) ↔ ∃ field ∈ fields,
      field.2.Defies
  | [] => by simp [writeFields]
  | (key, v) :: fields => by
    rw [writeFields, exists_error_bind_iff, write_eq_error_iff, writeFields_eq_error_iff]
    simp

end

example : write [] (.property "data") (.record [("a", .list [.null, .enclosing 1])]) =
    .error (.cycle [⟨.property "data", false⟩, ⟨.property "a", true⟩] (.index 1)) := rfl

end Value
end AnalysisProject
