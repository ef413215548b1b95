import AnalysisProject.Proofs.Log.Body
import AnalysisProject.Proofs.Value.Exact

namespace AnalysisProject.Log

open CodeUnit Json

def Level.word : Level → Text
  | debug => "debug"
  | info => "info"
  | warn => "warn"
  | error => "error"

structure Call where
  logger : Logger
  level : Level
  event : Text
  data : Option Data

namespace Call

variable (c : Call)

def isDropped : Bool := c.level = .debug && !c.logger.debugMode

def lines : List Text := c.logger.write c.level c.event c.data

def body : Text := Log.body c.level c.logger.component c.event c.data

/-- The fields that every entry has. -/
def head : List (Text × Value) :=
  [("timestamp", .text "T"), ("level", .text c.level.word), ("component", .text c.logger.component),
    ("event", .text c.event)]

theorem head_eq : c.head = Value.ofTexts (Log.head c.level c.logger.component c.event) := by
  have hword : c.level.word = c.level.name := by cases c.level <;> rfl
  rw [head, hword]
  rfl

/-- The fields of an entry beside those that every entry has. -/
inductive Adds : List (Text × Value) → Prop
  | nothing : c.data = none → Adds []
  | data {d : Data} (v : Value) : c.data = some d → ¬ (Value.record d.fields).Defies →
      ((Value.record d.fields).IsExact → v = .record d.fields) → Adds [("data", v)]
  | substitute {d : Data} (reason : Text) : c.data = some d → (Value.record d.fields).Defies →
      Adds [("serializationError", .text reason), ("originalData", .text "[unserializable]")]

end Call

def stream (calls : List Call) : Text := (calls.flatMap Call.lines).flatten

theorem forall₂_isFieldForm_ofTexts (texts : List (Text × Text)) :
    List.Forall₂ IsFieldForm (texts.map fun (key, s) ↦ (key, string s)) (Value.ofTexts texts) := by
  induction texts with
  | nil => exact .nil
  | cons entry texts ih => exact .cons ⟨rfl, isForm_string entry.2⟩ ih

theorem isForm_texts {texts : List (Text × Text)} (h : (texts.map Prod.fst).Nodup) :
    IsForm (Json.texts texts) (.record (Value.ofTexts texts)) := by
  have hform := isForm_object (forall₂_isFieldForm_ofTexts texts)
  have hkeys : ((Value.ofTexts texts).map Prod.fst).Nodup := by
    simpa [Value.ofTexts, Function.comp_def] using h
  rwa [Value.distinct_eq_self hkeys] at hform

theorem Data.write_record (d : Data) :
    Value.write [⟨.property "", false⟩] (.property "data") (.record d.fields) = d.json.map some := by
  rw [Data.json, Value.write]
  cases Value.writeFields [⟨.property "data", false⟩, ⟨.property "", false⟩] d.fields <;> rfl

theorem Data.json_eq_error_iff (d : Data) :
    (∃ reason, d.json = .error reason) ↔ (Value.record d.fields).Defies := by
  rw [← exists_error_map_iff (f := some), ← d.write_record, Value.write_eq_error_iff]

theorem Data.isKeptIn_of_json {d : Data} {s : Text} (h : d.json = .ok s) :
    Value.IsKeptIn s (.record d.fields) := by
  have hwrite := d.write_record
  rw [h] at hwrite
  exact Value.isKeptIn_of_write _ _ _ hwrite

namespace Call

variable {c : Call}

theorem isForm_body_of_none (h : c.data = none) : IsForm c.body (.record c.head) := by
  have hkeys : (["timestamp", "level", "component", "event"] : List Text).Nodup := by decide
  rw [body, h, body_none, head_eq]
  exact isForm_texts hkeys

variable {d : Data} (hdata : c.data = some d)
include hdata

theorem isForm_body_of_ok {s : Text} {v : Value} (h : d.json = .ok s) (hv : IsForm s v) :
    IsForm c.body (.record (c.head ++ [(("data" : Text), v)])) := by
  have hkeys : (["timestamp", "level", "component", "event", "data"] : List Text).Nodup := by decide
  have hdistinct : distinct (c.head ++ [(("data" : Text), v)]) = _ := Value.distinct_eq_self hkeys
  have hhead := forall₂_isFieldForm_ofTexts (Log.head c.level c.logger.component c.event)
  have hfield : IsFieldForm ("data", s) ("data", v) := ⟨rfl, hv⟩
  rw [body, hdata, body_of_ok _ _ _ h, ← hdistinct, head_eq]
  exact isForm_object (List.rel_append hhead (.cons hfield .nil))

theorem isForm_body_of_error {reason : Unwritable} (h : d.json = .error reason) :
    let more : List (Text × Text) :=
      [("serializationError", reason.message), ("originalData", "[unserializable]")]
    IsForm c.body (.record (c.head ++ Value.ofTexts more)) := by
  have hkeys : (["timestamp", "level", "component", "event", "serializationError",
    "originalData"] : List Text).Nodup := by decide
  rw [body, hdata, body_of_error _ _ _ h, head_eq]
  exact isForm_texts hkeys

omit hdata

variable (c)

theorem exists_isForm_body : ∃ more, IsForm c.body (.record (c.head ++ more)) ∧ c.Adds more := by
  cases hdata : c.data with
  | none =>
    refine ⟨[], ?_, .nothing hdata⟩
    rw [List.append_nil]
    exact isForm_body_of_none hdata
  | some d =>
    cases hjson : d.json with
    | error reason =>
      have hdefies := d.json_eq_error_iff.mp ⟨reason, hjson⟩
      exact ⟨_, isForm_body_of_error hdata hjson, .substitute reason.message hdata hdefies⟩
    | ok s =>
      have hfine : ¬ (Value.record d.fields).Defies := by
        rw [← d.json_eq_error_iff, hjson]
        rintro ⟨reason, hreason⟩
        cases hreason
      obtain ⟨v, hform, hkept⟩ := Data.isKeptIn_of_json hjson
      exact ⟨_, isForm_body_of_ok hdata hjson hform, .data v hdata hfine hkept⟩

/-- What JSON is made of is the entry, or what is said in its stead; the second time nothing can go
wrong. -/
theorem jsonRecord_body :
    Value.jsonRecord (entry c.level c.logger.component c.event c.data) = .ok c.body ∨
      ∃ reason, Value.jsonRecord (entry c.level c.logger.component c.event c.data) = .error reason ∧
        Value.jsonRecord (Value.ofTexts (substitute c.level c.logger.component c.event reason)) =
          .ok c.body := by
  rw [body, Log.body]
  cases h : Value.jsonRecord (entry c.level c.logger.component c.event c.data) with
  | ok s => exact .inl rfl
  | error reason => exact .inr ⟨reason, rfl, Value.jsonRecord_ofTexts _⟩

theorem lines_eq : c.lines = if c.isDropped then [] else [c.body ++ [lineFeed]] := rfl

theorem lineFeed_notMem_body : lineFeed ∉ c.body := by
  obtain ⟨more, hform, -⟩ := c.exists_isForm_body
  intro hm
  exact absurd (hform.printable _ hm) (by decide)

end Call

theorem stream_cons (c : Call) (calls : List Call) :
    stream (c :: calls) = c.lines.flatten ++ stream calls := by
  simp [stream]

/-- Cut at its line feeds, a stream falls into the entries that were written, with nothing behind
the last. -/
theorem splitOn_stream (calls : List Call) :
    (stream calls).splitOn lineFeed = (calls.filter (!·.isDropped)).map Call.body ++ [[]] := by
  induction calls with
  | nil => rfl
  | cons c calls ih =>
    rw [stream_cons, Call.lines_eq]
    cases hc : c.isDropped with
    | true => simp [hc, ih]
    | false =>
      have hcut := List.splitOn_append_cons_self_of_not_mem c.lineFeed_notMem_body (stream calls)
      simp [hc, ih, hcut]

/-- Log lines frame the entries that they hold, and each entry is read back from its line. -/
theorem stream_framed :
    (∀ calls, (stream calls).splitOn lineFeed =
      (calls.filter (!·.isDropped)).map Call.body ++ [[]]) ∧
      ∀ c : Call,
        c.lines = (if c.isDropped then [] else [c.body ++ [lineFeed]]) ∧
        (∀ u ∈ c.body, 0x20 ≤ u) ∧
        (Value.jsonRecord (entry c.level c.logger.component c.event c.data) = .ok c.body ∨
          ∃ reason,
            Value.jsonRecord (entry c.level c.logger.component c.event c.data) = .error reason ∧
            Value.jsonRecord
              (Value.ofTexts (substitute c.level c.logger.component c.event reason)) =
                .ok c.body) ∧
        ∃ more, Json.read c.body = some (.record (c.head ++ more)) ∧ c.Adds more := by
  refine ⟨splitOn_stream, fun c ↦ ?_⟩
  obtain ⟨more, hform, hadds⟩ := c.exists_isForm_body
  exact ⟨c.lines_eq, hform.printable, c.jsonRecord_body, more, hform.read_eq, hadds⟩

end AnalysisProject.Log
