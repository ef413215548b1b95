import AnalysisProject.Markup.Record
import AnalysisProject.Project.Canonical

namespace AnalysisProject

open Markup

namespace Value

variable {name other : Text} (v : Value) (fields : List (Text × Value))

theorem field?_cons_of_ne (h : other ≠ name) :
    field? ((name, v) :: fields) other = field? fields other := by
  rw [field?, List.lookup_cons, beq_false_of_ne h]
  rfl

theorem field?_setField (name : Text) : field? (setField name v fields) name = some v := by
  induction fields with
  | nil => exact List.lookup_cons_self
  | cons field fields ih =>
    obtain ⟨key, w⟩ := field
    rw [setField]
    by_cases h : key = name
    · rw [if_pos h, h]
      exact List.lookup_cons_self
    · rw [if_neg h, field?_cons_of_ne w _ (Ne.symm h), ih]

theorem field?_setField_of_ne (h : other ≠ name) :
    field? (setField name v fields) other = field? fields other := by
  induction fields with
  | nil => exact field?_cons_of_ne v [] h
  | cons field fields ih =>
    obtain ⟨key, w⟩ := field
    rw [setField]
    by_cases hkey : key = name
    · rw [if_pos hkey, field?_cons_of_ne v _ (hkey ▸ h), field?_cons_of_ne w _ (hkey ▸ h)]
    · rw [if_neg hkey]
      by_cases hother : other = key
      · rw [hother, field?, field?, List.lookup_cons_self, List.lookup_cons_self]
      · rw [field?_cons_of_ne w _ hother, field?_cons_of_ne w _ hother, ih]

end Value

namespace Markup

/-- The tree as the records that stand for it. -/
def Node.toRecord : Node → Record
  | text s => [(Record.textKey, .text s)]
  | element name attributes children =>
    Record.element name (.list ((children.map toRecord).map .record)) (Value.ofTexts attributes)

namespace Record

theorem ofValue_list (records : List Record) : ofValue (.list (records.map .record)) = records := by
  rw [ofValue, List.filterMap_map]
  exact List.filterMap_some

variable {name other : Text} (children : Value) (attributes : Record)

theorem field?_element (h : other ≠ attributesKey) :
    Value.field? (element name children attributes) other =
      Value.field? [(name, children)] other := by
  rw [element]
  split
  · rfl
  · exact Value.field?_setField_of_ne _ _ h

/-- The field of the attributes does not pass for a name. -/
theorem name?_element (name : Text) : (element name children attributes).name? =
    if name == textKey || name == attributesKey || Text.startsWith "?" name then none
    else some name := by
  rw [element, name?]
  by_cases h : name = attributesKey
  · rw [h]
    split <;> simp [Value.setField]
  · split <;> cases htext : name == textKey <;> cases hmark : Text.startsWith "?" name <;>
      simp [Value.setField, h, htext, hmark, bne, beq_false_of_ne h]

theorem field?_mark (attributes : Attributes) (name : Text) :
    Value.field? ((Value.ofTexts attributes).map fun (key, v) ↦ (attributeMark ++ key, v))
      (attributeMark ++ name) = (attributes.lookup name).map .text := by
  induction attributes with
  | nil => rfl
  | cons a attributes ih =>
    obtain ⟨key, s⟩ := a
    by_cases h : name = key
    · rw [h, List.lookup_cons_self]
      exact List.lookup_cons_self
    · have hmark : attributeMark ++ name ≠ attributeMark ++ key := mt List.append_cancel_left h
      rw [List.lookup_cons, beq_false_of_ne h]
      exact (Value.field?_cons_of_ne _ _ hmark).trans ih

variable (items : List Value)

theorem attribute?_element (attributes : Attributes) (key : Text) :
    (element name (.list items) (Value.ofTexts attributes)).attribute? key =
      attributes.lookup key := by
  rw [attribute?, element]
  cases attributes with
  | nil =>
    -- Children that take the place of the attributes are no record.
    have hnone : (Value.ofTexts []).isEmpty = true := rfl
    rw [if_pos hnone]
    by_cases h : name = attributesKey
    · rw [h]
      rfl
    · rw [Value.field?_cons_of_ne _ _ (Ne.symm h)]
      rfl
  | cons a attributes =>
    have hne : (Value.ofTexts (a :: attributes)).isEmpty = false := rfl
    rw [hne, if_neg Bool.false_ne_true, Value.field?_setField]
    simp only [field?_mark, Option.bind_map]
    cases (a :: attributes).lookup key <;> rfl

theorem text_element :
    (Value.field? (element name (.list items) attributes) textKey).bind Value.scalarText? =
      none := by
  have hne : textKey ≠ attributesKey := by decide
  rw [field?_element _ _ hne]
  by_cases h : name = textKey
  · rw [h]
    rfl
  · rw [Value.field?_cons_of_ne _ _ (Ne.symm h)]
    rfl

end Record

namespace Node

variable {name : Text}

theorem name?_toRecord (node : Node) : node.toRecord.name? = node.name? := by
  cases node with
  | text s => rw [toRecord]; rfl
  | element name attributes children =>
    rw [toRecord, Record.name?_element, name?]
    rfl

theorem attribute?_toRecord (node : Node) (key : Text) :
    node.toRecord.attribute? key = node.attribute? key := by
  cases node with
  | text s => rw [toRecord]; rfl
  | element name attributes children =>
    rw [toRecord, Record.attribute?_element, attribute?]

theorem exists_eq_element {node : Node} (h : node.name? = some name) :
    ∃ attributes children, node = element name attributes children ∧
      name ≠ Record.attributesKey := by
  cases node with
  | text s => cases h
  | element key attributes children =>
    rw [name?] at h
    split at h
    · cases h
    · rename_i hkey
      obtain rfl := Option.some.inj h
      refine ⟨attributes, children, rfl, ?_⟩
      rintro rfl
      exact hkey rfl

theorem children_toRecord {attributes : Attributes} {children : List Node}
    (h : name ≠ Record.attributesKey) :
    (element name attributes children).toRecord.children name = children.map toRecord := by
  have hfield : Value.field? [(name, .list ((children.map toRecord).map .record))] name =
      some (.list ((children.map toRecord).map .record)) := List.lookup_cons_self
  rw [toRecord, Record.children, Record.field?_element _ _ h, hfield]
  exact Record.ofValue_list _

variable {node : Node} (h : node.name? = some name)
include h

theorem elements_toRecord : node.toRecord.elements name = node.elements.map toRecord := by
  obtain ⟨attributes, children, rfl, hname⟩ := exists_eq_element h
  rw [Record.elements, children_toRecord hname, List.filter_map, elements]
  exact congrArg (List.map toRecord ∘ (List.filter · children)) (funext fun child ↦ by
    rw [Function.comp_apply, child.name?_toRecord])

theorem content_toRecord : node.toRecord.content name = node.content := by
  obtain ⟨attributes, children, rfl, hname⟩ := exists_eq_element h
  rw [Record.content, children_toRecord hname, List.flatMap_map, content]
  refine congrArg (List.flatMap · children) (funext fun child ↦ ?_)
  cases child with
  | text s => rw [toRecord]; rfl
  | element key attributes more => rw [toRecord, Record.text_element]; rfl

end Node

end Markup

theorem toRecord_leaf (name s : Text) (attributes : Attributes) :
    (leaf name attributes s).toRecord = Record.textElement name s (Value.ofTexts attributes) := by
  rw [leaf, Record.textElement, Node.toRecord]
  cases s with
  | nil => rfl
  | cons c s =>
    rw [List.isEmpty_cons, if_neg Bool.false_ne_true, if_neg Bool.false_ne_true, List.map_singleton,
      Node.toRecord]
    rfl

end AnalysisProject
