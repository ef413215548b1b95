import AnalysisProject.Proofs.Value.Form

namespace AnalysisProject

open Json

namespace Value

/-- The value consists of texts, truth values and small numbers for counting, and of lists and
records of them in which no name occurs twice. -/
inductive IsExact : Value → Prop
  | null : IsExact .null
  | bool (b : Bool) : IsExact (.bool b)
  | count {k : Nat} : k < 2 ^ 53 → IsExact (.number (.integer k))
  | text (s : Text) : IsExact (.text s)
  | list {items : List Value} : (∀ v ∈ items, IsExact v) → IsExact (.list items)
  | record {fields : List (Text × Value)} :
      (fields.map Prod.fst).Nodup → (∀ field ∈ fields, IsExact field.2) → IsExact (.record fields)

theorem setField_eq_append {name : Text} {fields : List (Text × Value)}
    (h : name ∉ fields.map Prod.fst) (v : Value) :
    setField name v fields = fields ++ [(name, v)] := by
  induction fields with
  | nil => rfl
  | cons field fields ih =>
    simp only [List.map_cons, List.mem_cons, not_or] at h
    rw [setField, if_neg (Ne.symm h.1), ih h.2, List.cons_append]

theorem distinct_eq_self {fields : List (Text × Value)} (h : (fields.map Prod.fst).Nodup) :
    distinct fields = fields := by
  have hfold (before : List (Text × Value)) (hn : ((before ++ fields).map Prod.fst).Nodup) :
      fields.foldl (fun fields field ↦ setField field.1 field.2 fields) before =
        before ++ fields := by
    clear h
    induction fields generalizing before with
    | nil => simp
    | cons field fields ih =>
      have hfresh : field.1 ∉ before.map Prod.fst := by
        intro hm
        simp only [List.map_append, List.map_cons, List.nodup_append] at hn
        exact hn.2.2 _ hm _ List.mem_cons_self rfl
      rw [List.foldl_cons, setField_eq_append hfresh, ih _ (by simpa using hn)]
      simp
  exact hfold [] h

/-- The text is the JSON form of some value, and of `v` itself if JSON keeps it. -/
def IsKeptIn (s : Text) (v : Value) : Prop := ∃ w, IsForm s w ∧ (v.IsExact → w = v)

theorem isKeptIn_of_isForm {s : Text} {v : Value} (h : IsForm s v) : IsKeptIn s v :=
  ⟨v, h, fun _ ↦ rfl⟩

theorem not_isExact_of_write {around : List Enclosure} {place : Place} {v : Value}
    (h : write around place v = .ok none) :
    ¬ v.IsExact := by
  intro hv
  cases hv with
  | null | bool | count | text => cases h
  | list =>
    obtain ⟨written, -, h⟩ := exists_of_map_eq_ok h
    cases h
  | record =>
    obtain ⟨written, -, h⟩ := exists_of_map_eq_ok h
    cases h

mutual

theorem isKeptIn_of_write (around : List Enclosure) (place : Place) :
    ∀ (v : Value) {s : Text}, write around place v = .ok (some s) → IsKeptIn s v
  | .null, _, h => by cases h; exact isKeptIn_of_isForm isForm_null
  | .bool b, _, h => by cases h; exact isKeptIn_of_isForm (isForm_bool b)
  | .number n, _, h => by
    cases h
    obtain ⟨w, hw, hcount⟩ := exists_isForm_number n
    refine ⟨w, hw, fun hexact ↦ ?_⟩
    cases hexact with
    | count hk => exact hcount _ hk rfl
  | .text s, _, h => by cases h; exact isKeptIn_of_isForm (isForm_string s)
  | .list items, s, h => by
    obtain ⟨written, hitems, h⟩ := exists_of_map_eq_ok h
    cases h
    obtain ⟨ws, hforms, hkept⟩ := exists_of_writeItems _ _ items hitems
    refine ⟨_, isForm_array hforms, fun hexact ↦ ?_⟩
    cases hexact with
    | list hall => rw [hkept hall]
  | .record fields, s, h => by
    obtain ⟨written, hfields, h⟩ := exists_of_map_eq_ok h
    cases h
    obtain ⟨ws, hforms, hkept⟩ := exists_of_writeFields _ fields hfields
    refine ⟨_, isForm_object hforms, fun hexact ↦ ?_⟩
    cases hexact with
    | record hnodup hall => rw [hkept hall, distinct_eq_self hnodup]
  | .bigint _, _, h | .undefined, _, h | .enclosing _, _, h => by cases h

theorem exists_of_writeItems (around : List Enclosure) (n : Nat) :
    ∀ (items : List Value) {written : List Text}, writeItems around n items = .ok written →
      ∃ ws, List.Forall₂ IsForm written ws ∧ ((∀ v ∈ items, v.IsExact) → ws = items)
  | [], _, h => by cases h; exact ⟨[], .nil, fun _ ↦ rfl⟩
  | v :: items, _, h => by
    obtain ⟨s, hs, h⟩ := exists_of_bind_eq_ok h
    obtain ⟨rest, hrest, h⟩ := exists_of_bind_eq_ok h
    cases h
    obtain ⟨ws, hforms, hkept⟩ := exists_of_writeItems around (n + 1) items hrest
    obtain ⟨w, hw, hv⟩ : IsKeptIn (s.getD "null") v := by
      cases s with
      | none => exact ⟨null, isForm_null, fun hexact ↦ absurd hexact (not_isExact_of_write hs)⟩
      | some s => exact isKeptIn_of_write around (.index n) v hs
    refine ⟨w :: ws, .cons hw hforms, fun hall ↦ ?_⟩
    rw [hv (hall v List.mem_cons_self), hkept fun u hu ↦ hall u (List.mem_cons_of_mem _ hu)]

theorem exists_of_writeFields (around : List Enclosure) :
    ∀ (fields : List (Text × Value)) {written : List (Text × Text)}, writeFields around fields =
      .ok written →
      ∃ ws, List.Forall₂ IsFieldForm written ws ∧
        ((∀ field ∈ fields, field.2.IsExact) → ws = fields)
  | [], _, h => by cases h; exact ⟨[], .nil, fun _ ↦ rfl⟩
  | (key, v) :: fields, _, h => by
    obtain ⟨s, hs, h⟩ := exists_of_bind_eq_ok h
    obtain ⟨rest, hrest, h⟩ := exists_of_bind_eq_ok h
    cases h
    obtain ⟨ws, hforms, hkept⟩ := exists_of_writeFields around fields hrest
    cases s with
    | none =>
      exact ⟨ws, hforms, fun hall ↦ absurd (hall _ List.mem_cons_self) (not_isExact_of_write hs)⟩
    | some s =>
      obtain ⟨w, hw, hv⟩ := isKeptIn_of_write around (.property key) v hs
      refine ⟨(key, w) :: ws, .cons ⟨rfl, hw⟩ hforms, fun hall ↦ ?_⟩
      rw [hv (hall _ List.mem_cons_self), hkept fun u hu ↦ hall u (List.mem_cons_of_mem _ hu)]

end

end Value

theorem Json.IsForm.read_eq {s : Text} {v : Value} (h : IsForm s v) : read s = some v := by
  have hends : Ends [] := nofun
  have hread := h.reads (s.length + 1) [] (Nat.lt_succ_self _) hends
  rw [List.append_nil] at hread
  simp [read, hread]

end AnalysisProject
