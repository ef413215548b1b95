import AnalysisProject.Log.Line
import AnalysisProject.Proofs.Value.Writing

namespace AnalysisProject.Log

open Json

def Data.json (data : Data) : Except Unwritable Text :=
  (Value.writeFields [⟨.property "data", false⟩, ⟨.property "", false⟩] data.fields).map object

variable (level : Level) (component event : Text) (data : Data)

def writtenHead : List (Text × Text) :=
  (head level component event).map fun (key, s) ↦ (key, string s)

theorem body_none : body level component event none = texts (head level component event) := by
  rw [body, entry, List.append_nil, Value.jsonRecord_ofTexts]

theorem jsonRecord_entry_some :
    Value.jsonRecord (entry level component event (some data)) =
      data.json.map fun s ↦
        object (writtenHead level component event ++ [(("data" : Text), s)]) := by
  simp only [Value.jsonRecord, entry, Value.writeFields_ofTexts_append, Data.json,
    Value.writeFields, Value.write]
  cases Value.writeFields [⟨.property "data", false⟩, ⟨.property "", false⟩] data.fields <;> rfl

variable {data}

theorem body_of_ok {s : Text} (h : data.json = .ok s) :
    body level component event (some data) =
      object (writtenHead level component event ++ [(("data" : Text), s)]) := by
  rw [body, jsonRecord_entry_some, h]
  rfl

theorem body_of_error {reason : Unwritable} (h : data.json = .error reason) :
    body level component event (some data) = texts (substitute level component event reason) := by
  rw [body, jsonRecord_entry_some, h]
  rfl

theorem Data.json_ofTexts (fields : List (Text × Text)) :
    (ofFields (Value.ofTexts fields)).json = .ok (texts fields) := by
  rw [json, Value.writeFields_ofTexts]
  rfl

theorem exists_body_eq (data : Option Data) :
    ∃ more, body level component event data =
      object (writtenHead level component event ++ more) := by
  cases data with
  | none => exact ⟨[], by rw [body_none, List.append_nil]; rfl⟩
  | some data =>
    cases h : data.json with
    | ok s => exact ⟨_, body_of_ok level component event h⟩
    | error reason =>
      rw [body_of_error level component event h, texts, substitute, List.map_append]
      exact ⟨_, rfl⟩

end AnalysisProject.Log
