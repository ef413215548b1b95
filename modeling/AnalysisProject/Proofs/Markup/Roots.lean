import AnalysisProject.Markup.Printer
import AnalysisProject.Proofs.Markup.Outline
import AnalysisProject.Proofs.Markup.Provenance

namespace AnalysisProject.Markup

open CodeUnit

namespace Cursor

def depth? : Cursor → Option Nat
  | within _ ancestors => some ancestors.length
  | past _ => none

def roots (cursor : Cursor) : Nat := cursor.children.countP Node.isElement

/-- The same place, of which only texts can have changed. -/
structure Keeps (cursor cursor' : Cursor) : Prop where
  depth : cursor'.depth? = cursor.depth?
  roots : cursor'.roots = cursor.roots

/-- From one place to the next over a piece, unless the piece closes the document. -/
def Passes (item : Item) (cursor cursor' : Cursor) : Prop :=
  ∀ depth, cursor.depth? = some depth → (item = .closing → depth ≠ 0) →
    cursor'.depth? = some (item.depthAfter depth) ∧
      cursor'.roots = cursor.roots + if depth = 0 ∧ item.begins = true then 1 else 0

theorem Keeps.refl (cursor : Cursor) : cursor.Keeps cursor := ⟨rfl, rfl⟩

theorem Keeps.trans {c₁ c₂ c₃ : Cursor} (h : c₁.Keeps c₂) (h' : c₂.Keeps c₃) : c₁.Keeps c₃ :=
  ⟨h'.depth.trans h.depth, h'.roots.trans h.roots⟩

theorem Keeps.passes {c₁ c₂ c₃ : Cursor} {item : Item} (h : c₁.Keeps c₂) (h' : c₂.Passes item c₃) :
    c₁.Passes item c₃ := by
  intro depth hd hc
  rw [← h.roots]
  exact h' depth (h.depth.trans hd) hc

theorem Keeps.passes_of_isPassed {c₁ c₂ : Cursor} (h : c₁.Keeps c₂) {item : Item}
    (hi : item.isPassed = true) :
    c₁.Passes item c₂ := by
  have hb : item.begins = false := by cases item <;> first | rfl | cases hi
  intro depth hd _
  refine ⟨?_, ?_⟩
  · rw [h.depth, hd, Item.depthAfter_of_isPassed hi]
  · rw [h.roots, hb, if_neg (fun hand ↦ Bool.false_ne_true hand.2), Nat.add_zero]

theorem roots_push (frame : Frame) (ancestors : List Frame) (node : Node) :
    (within (frame.push node) ancestors).roots =
      (within frame ancestors).roots + if ancestors.length = 0 ∧ node.isElement = true then 1
      else 0 := by
  induction ancestors generalizing frame node with
  | nil =>
    have hchildren (frame : Frame) :
        (within frame []).roots = frame.children.countP Node.isElement :=
      List.countP_reverse
    rw [hchildren, hchildren, Frame.push, List.countP_cons]
    simp
  | cons parent ancestors ih =>
    -- Both frames are closed into an element, and only that there is one counts above.
    have hclose (frame : Frame) : (within frame (parent :: ancestors)).roots =
        (within (parent.push frame.close) ancestors).roots := rfl
    have hdeep : ¬ ((parent :: ancestors).length = 0 ∧ node.isElement = true) :=
      fun h ↦ Nat.succ_ne_zero _ h.1
    rw [hclose, hclose, ih, ih, if_neg hdeep]
    rfl

theorem keeps_push_text (frame : Frame) (ancestors : List Frame) (s : Text) :
    (within frame ancestors).Keeps (within (frame.push (.text s)) ancestors) := by
  refine ⟨rfl, ?_⟩
  rw [roots_push, if_neg (fun h ↦ Bool.false_ne_true h.2), Nat.add_zero]

theorem passes_empty (frame : Frame) (ancestors : List Frame) (inner : Frame) :
    (within frame ancestors).Passes .empty (within (frame.push inner.close) ancestors) := by
  intro depth hd _
  cases hd
  refine ⟨rfl, ?_⟩
  rw [roots_push]
  rfl

theorem passes_opening (frame : Frame) (ancestors : List Frame) (inner : Frame) :
    (within frame ancestors).Passes .opening (within inner (frame :: ancestors)) := by
  intro depth hd hc
  obtain ⟨-, hroots⟩ := passes_empty frame ancestors inner depth hd nofun
  cases hd
  exact ⟨rfl, hroots⟩

theorem passes_leave (cursor : Cursor) : cursor.Passes .closing cursor.leave := by
  intro depth hd hc
  cases cursor with
  | past children => cases hd
  | within frame ancestors =>
    cases hd
    cases ancestors with
    | nil => exact absurd rfl (hc rfl)
    | cons parent ancestors => exact ⟨rfl, rfl⟩

end Cursor

namespace Reading

open Cursor

variable {r r' : Reading} {s t : Text}

theorem decode_cursor (h : r.decode s = .ok (r', t)) : r'.cursor = r.cursor := by
  rw [decode] at h
  split at h
  · cases h
    rfl
  · cases h

theorem decodeAttributes_cursor {attributes decoded : Attributes} {raws : List (Text × Text)}
    (h : r.decodeAttributes attributes raws = .ok (r', decoded)) : r'.cursor = r.cursor := by
  induction raws generalizing r attributes with
  | nil =>
    cases h
    rfl
  | cons raw raws ih =>
    obtain ⟨name, value⟩ := raw
    rw [decodeAttributes] at h
    obtain ⟨⟨r₁, t⟩, hd, h⟩ := exists_of_bind_eq_ok h
    rw [ih h, decode_cursor hd]

theorem keeps_flush (h : r.flush = .ok r') : r.cursor.Keeps r'.cursor := by
  rw [flush] at h
  split at h
  · cases h
    exact .refl _
  · split at h
    · cases h
    · next frame ancestors hcursor =>
      obtain ⟨⟨r₁, s⟩, -, h⟩ := exists_of_bind_eq_ok h
      cases h
      rw [hcursor]
      simp only
      split
      · exact .refl _
      · exact keeps_push_text _ _ _

theorem keeps_flushBeforeTag (h : r.flushBeforeTag = .ok r') : r.cursor.Keeps r'.cursor := by
  rw [flushBeforeTag] at h
  split at h
  · split at h
    · cases h
      exact .refl _
    · exact keeps_flush h
  · cases h
    exact .refl _

theorem passes_closeTag (h : r.closeTag = .ok r') : r.cursor.Passes .closing r'.cursor := by
  rw [closeTag] at h
  split at h
  · obtain ⟨r₁, hflush, h⟩ := exists_of_bind_eq_ok h
    cases h
    exact (keeps_flush hflush).passes (passes_leave _)
  · cases h
    exact passes_leave _

theorem keeps_addSection (h : r.addSection s = .ok r') : r.cursor.Keeps r'.cursor := by
  rw [addSection] at h
  obtain ⟨r₁, hflush, h⟩ := exists_of_bind_eq_ok h
  have hkeeps := keeps_flush hflush
  split at h
  · cases h
  · next frame ancestors hcursor =>
    cases h
    rw [hcursor] at hkeeps
    exact hkeeps.trans (keeps_push_text _ _ _)

theorem passes_addElement {name : Text} {raws : List (Text × Text)}
    (h : r.addElement name raws = .ok r') :
    r.cursor.Passes .empty r'.cursor := by
  rw [addElement] at h
  obtain ⟨r₁, hflush, h⟩ := exists_of_bind_eq_ok h
  obtain ⟨⟨r₂, attributes⟩, hd, h⟩ := exists_of_bind_eq_ok h
  have hkeeps := keeps_flushBeforeTag hflush
  rw [← decodeAttributes_cursor hd] at hkeeps
  simp only at h
  split at h
  · cases h
  · next frame ancestors hcursor =>
    cases h
    rw [hcursor] at hkeeps
    exact hkeeps.passes (passes_empty _ _ _)

theorem passes_openElement {name : Text} {raws : List (Text × Text)}
    (h : r.openElement name raws = .ok r') :
    r.cursor.Passes .opening r'.cursor := by
  rw [openElement] at h
  obtain ⟨r₁, hflush, h⟩ := exists_of_bind_eq_ok h
  have hkeeps := keeps_flushBeforeTag hflush
  split at h
  · obtain ⟨-, -, h⟩ := exists_of_bind_eq_ok h
    cases h
  · next frame ancestors hcursor =>
    simp only at h
    split at h
    · cases h
    · obtain ⟨⟨r₂, attributes⟩, -, h⟩ := exists_of_bind_eq_ok h
      cases h
      rw [hcursor] at hkeeps
      exact hkeeps.passes (passes_opening _ _ _)

def tagItem (inside : Text) : Item := if (splitName inside).2.endsIn slash then .empty else .opening

theorem passes_takeTag (h : r.takeTag s = .ok r') : r.cursor.Passes (tagItem s) r'.cursor := by
  rw [tagItem]
  simp only [takeTag] at h
  split at h
  · cases h
  · split at h
    · next hs =>
      rw [if_pos hs]
      split at h
      · exact passes_addElement h
      · exact passes_addElement h
    · next hs =>
      rw [if_neg hs]
      exact passes_openElement h

def piece? (s : Text) : Option (Item × Text) :=
  if Text.startsWith "/" s then (Text.after? ">" s).map fun rest ↦ (.closing, rest)
  else if Text.startsWith "?" s then (skipInstruction? none s).map fun rest ↦ (.misc, rest)
  else if Text.startsWith "!--" s then (Text.after? "-->" (s.drop 3)).map fun rest ↦ (.misc, rest)
  else if Text.startsWith "!D" s then (Doctype.read (s.drop 2)).toOption.map fun (_, rest) ↦
    (.misc, rest)
  else if Text.startsWith "![" s then (section? (s.drop 1)).map fun (_, rest) ↦ (.characters, rest)
  else (tag? s).map fun (inside, rest) ↦ (tagItem inside, rest)

theorem piece?_of_takeMarkup {rest : Text} (h : r.takeMarkup s = .ok (r', rest)) :
    ∃ item, piece? s = some (item, rest) ∧ item ≠ .stray ∧ r.cursor.Passes item r'.cursor := by
  rw [takeMarkup] at h
  rw [piece?]
  split at h
  · next hs =>
    rw [if_pos hs]
    split at h
    · cases h
    · next ha =>
      obtain ⟨r₁, hclose, h⟩ := exists_of_map_eq_ok h
      cases h
      exact ⟨.closing, by rw [ha, Option.map_some], by decide, passes_closeTag hclose⟩
  · next hs =>
    rw [if_neg hs]
    split at h
    · next hs =>
      rw [if_pos hs]
      split at h
      · cases h
      · next ha =>
        obtain ⟨r₁, hflush, h⟩ := exists_of_map_eq_ok h
        cases h
        exact ⟨.misc, by rw [ha, Option.map_some], by decide,
          (keeps_flush hflush).passes_of_isPassed rfl⟩
    · next hs =>
      rw [if_neg hs]
      split at h
      · next hs =>
        rw [if_pos hs]
        split at h
        · cases h
        · next ha =>
          cases h
          exact ⟨.misc, by rw [ha, Option.map_some], by decide,
            (Keeps.refl _).passes_of_isPassed rfl⟩
      · next hs =>
        rw [if_neg hs]
        split at h
        · next hs =>
          rw [if_pos hs]
          split at h
          · cases h
          · next ha =>
            cases h
            exact ⟨.misc, by rw [ha]; rfl, by decide, (Keeps.refl _).passes_of_isPassed rfl⟩
        · next hs =>
          rw [if_neg hs]
          split at h
          · next hs =>
            rw [if_pos hs]
            split at h
            · cases h
            · next ha =>
              obtain ⟨r₁, hadd, h⟩ := exists_of_map_eq_ok h
              cases h
              exact ⟨.characters, by rw [ha, Option.map_some], by decide,
                (keeps_addSection hadd).passes_of_isPassed rfl⟩
          · next hs =>
            rw [if_neg hs]
            split at h
            · cases h
            · next inside _ ha =>
              obtain ⟨r₁, htag, h⟩ := exists_of_map_eq_ok h
              cases h
              refine ⟨tagItem inside, by rw [ha, Option.map_some], ?_, passes_takeTag htag⟩
              rw [tagItem]
              split <;> decide

theorem length_piece? {item : Item} {rest : Text} (h : piece? s = some (item, rest)) :
    rest.length ≤ s.length := by
  have of_map {α : Type} {o : Option α} {f : α → Item × Text}
    (hf : ∀ a, o = some a → (f a).2.length ≤ s.length)
      (h : o.map f = some (item, rest)) : rest.length ≤ s.length := by
    obtain ⟨a, ha, he⟩ := Option.map_eq_some_iff.mp h
    have hl := hf a ha
    rwa [he] at hl
  have hdrop (n : Nat) : (s.drop n).length ≤ s.length := (List.drop_sublist n s).length_le
  rw [piece?] at h
  split at h
  · exact of_map (fun _ ha ↦ Text.length_after? ha) h
  · split at h
    · exact of_map (fun _ ha ↦ length_skipInstruction? ha) h
    · split at h
      · exact of_map (fun _ ha ↦ Nat.le_trans (Text.length_after? ha) (hdrop 3)) h
      · split at h
        · refine of_map (fun a ha ↦ ?_) h
          cases hd : Doctype.read (s.drop 2) with
          | error e =>
            rw [hd] at ha
            cases ha
          | ok found =>
            rw [hd] at ha
            cases ha
            exact Nat.le_trans (Doctype.length_read hd) (hdrop 2)
        · split at h
          · exact of_map (fun _ ha ↦ Nat.le_trans (length_section? ha) (hdrop 1)) h
          · exact of_map (fun _ ha ↦ length_tag? ha) h

def outline (s : Text) : List Piece :=
  match s with
  | [] => []
  | c :: s =>
    if c = less then
      match h : piece? s with
      | none => []
      | some (item, rest) =>
        have := length_piece? h
        ⟨less :: s, item, rest⟩ :: outline rest
    else
      have := Text.length_dropWhile_le (· != less) s
      ⟨c :: s, .ofText (c :: s.takeWhile (· != less)), s.dropWhile (· != less)⟩ ::
        outline (s.dropWhile (· != less))
termination_by s.length

theorem outline_less {item : Item} {rest : Text} (h : piece? s = some (item, rest)) :
    outline (less :: s) = ⟨less :: s, item, rest⟩ :: outline rest := by
  rw [outline, if_pos rfl]
  split
  · next hn => cases h.symm.trans hn
  · next hs =>
    cases h.symm.trans hs
    rfl

theorem outline_text {c : CodeUnit} (h : c ≠ less) (s : Text) : outline (c :: s) =
    ⟨c :: s, .ofText (c :: s.takeWhile (· != less)), s.dropWhile (· != less)⟩ ::
      outline (s.dropWhile (· != less)) := by
  rw [outline, if_neg h]

/-- Each element that begins at the top is there in the end. -/
theorem roots_of_run (h : r.run s = .ok r') {depth : Nat} (hd : r.cursor.depth? = some depth)
    (hc : .closing ∉ Item.top depth ((outline s).map Piece.item)) :
    r'.cursor.roots = r.cursor.roots + (Item.top depth ((outline s).map Piece.item)).countP
      Item.begins := by
  have htop (depth : Nat) (item : Item) : (if depth = 0 then [item] else []).countP Item.begins =
      if depth = 0 ∧ item.begins = true then 1 else 0 := by
    by_cases hd : depth = 0 <;> simp [hd, List.countP_cons]
  fun_induction run r s generalizing depth with
  | case1 =>
    cases h
    rw [outline]
    rfl
  | case2 => cases h
  | case3 r s r₁ rest hmarkup _ ih =>
    obtain ⟨item, hpiece, -, hpasses⟩ := piece?_of_takeMarkup hmarkup
    rw [outline_less hpiece, List.map_cons, Item.top_cons] at hc ⊢
    have hopen : item = .closing → depth ≠ 0 := by
      rintro rfl rfl
      exact hc (List.mem_append_left _ (List.mem_cons_self ..))
    obtain ⟨hdepth, hroots⟩ := hpasses depth hd hopen
    rw [ih h hdepth fun hm ↦ hc (List.mem_append_right _ hm), hroots, List.countP_append, htop,
      Nat.add_assoc]
  | case4 r c s hl _ ih =>
    obtain ⟨hb, hdepth⟩ := Item.begins_ofText (c :: s.takeWhile (· != less))
    rw [outline_text hl, List.map_cons, Item.top_cons, hdepth] at hc ⊢
    rw [ih h hd fun hm ↦ hc (List.mem_append_right _ hm), List.countP_append, htop, hb,
      if_neg (fun hand ↦ Bool.false_ne_true hand.2), Nat.zero_add]

theorem stray_not_mem_of_run (h : r.run s = .ok r') : .stray ∉ (outline s).map Piece.item := by
  fun_induction run r s with
  | case1 =>
    rw [outline]
    exact List.not_mem_nil
  | case2 => cases h
  | case3 r s r₁ rest hmarkup _ ih =>
    obtain ⟨item, hpiece, hstray, -⟩ := piece?_of_takeMarkup hmarkup
    rw [outline_less hpiece, List.map_cons]
    exact List.not_mem_cons_of_ne_of_not_mem (Ne.symm hstray) (ih h)
  | case4 r c s hl _ ih =>
    have hne : Item.stray ≠ Item.ofText (c :: s.takeWhile (· != less)) := by
      rcases Item.ofText_cases (c :: s.takeWhile (· != less)) with h | h | ⟨h, -⟩ <;>
        rw [h] <;> decide
    rw [outline_text hl, List.map_cons]
    exact List.not_mem_cons_of_ne_of_not_mem hne (ih h)

end Reading

/-- The elements at the top of what is read are those that begin there. -/
theorem countP_isElement_of_readDocument {s : Text} {nodes : List Node}
    (h : readDocument s = .ok nodes)
    (hc : .closing ∉ Item.top 0 ((Reading.outline s.unifyLines).map Piece.item)) :
    nodes.countP Node.isElement =
      (Item.top 0 ((Reading.outline s.unifyLines).map Piece.item)).countP Item.begins := by
  obtain ⟨r, hrun, rfl⟩ := exists_of_map_eq_ok h
  have hdepth : (Reading.cursor {}).depth? = some 0 := rfl
  have hnone : (Reading.cursor {}).roots = 0 := rfl
  have hroots := Reading.roots_of_run hrun hdepth hc
  rwa [hnone, Nat.zero_add] at hroots

end AnalysisProject.Markup
