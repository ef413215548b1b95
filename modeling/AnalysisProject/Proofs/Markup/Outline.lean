import AnalysisProject.Proofs.Markup.Acceptance
import AnalysisProject.Proofs.Markup.Rest

namespace AnalysisProject.Markup

open CodeUnit

/-- A piece of a document by its kind: white space, a text with an ampersand or another one, a
comment, an instruction or a document type declaration, a character section, an exclamation mark
that begins none of these, or a tag. -/
inductive Item
  | blank
  | reference
  | words
  | misc
  | characters
  | stray
  | opening
  | closing
  | empty
  deriving DecidableEq

namespace Item

def ofText (s : Text) : Item :=
  if s.all CodeUnit.isXmlSpace then blank else if s.contains ampersand then reference else words

def begins : Item → Bool
  | opening => true
  | empty => true
  | _ => false

def isPassed : Item → Bool
  | words => false
  | opening => false
  | closing => false
  | empty => false
  | _ => true

def depthAfter (depth : Nat) : Item → Nat
  | opening => depth + 1
  | closing => depth - 1
  | _ => depth

/-- The pieces in no element, of elements only those with which they begin. -/
def top (depth : Nat) : List Item → List Item
  | [] => []
  | item :: items =>
    if depth = 0 then item :: top (item.depthAfter depth) items
    else top (item.depthAfter depth) items

theorem top_cons (depth : Nat) (item : Item) (items : List Item) :
    top depth (item :: items) = (if depth = 0 then [item] else []) ++
      top (item.depthAfter depth) items := by
  rw [top]
  split <;> rfl

theorem top_subset (depth : Nat) (items : List Item) : top depth items ⊆ items := by
  induction items generalizing depth with
  | nil => exact List.Subset.refl _
  | cons item items ih =>
    rw [top]
    split
    · exact List.cons_subset_cons item (ih _)
    · exact List.subset_cons_of_subset item (ih _)

theorem depthAfter_of_isPassed {item : Item} (h : item.isPassed = true) (depth : Nat) :
    item.depthAfter depth = depth := by
  cases item <;> first | rfl | cases h

theorem begins_ofText (s : Text) :
    (ofText s).begins = false ∧ ∀ depth, (ofText s).depthAfter depth = depth := by
  rw [ofText]
  split
  · exact ⟨rfl, fun _ ↦ rfl⟩
  · split <;> exact ⟨rfl, fun _ ↦ rfl⟩

theorem ofText_cases (s : Text) :
    ofText s = blank ∨ ofText s = reference ∨
      ofText s = words ∧ ¬ ((∀ c ∈ s, c.isXmlSpace = true) ∨ ampersand ∈ s) := by
  rw [ofText]
  split
  · exact .inl rfl
  · next hspace =>
    split
    · exact .inr (.inl rfl)
    · next hampersand =>
      refine .inr (.inr ⟨rfl, not_or.mpr ⟨?_, ?_⟩⟩)
      · rwa [← List.all_eq_true]
      · rwa [← List.contains_iff_mem]

end Item

structure Piece where
  whole : Text
  item : Item
  rest : Text
  deriving DecidableEq

/-- One element, and beside it nothing but white space and pieces that say nothing. -/
def IsSingleRooted (top : List Item) : Prop :=
  top.countP Item.begins = 1 ∧ ∀ item ∈ top, item.begins = true ∨ item = .blank ∨ item = .misc

/-- A character section or a reference stands at the top, or an empty tag that is not alone. -/
def IsLoose (top : List Item) : Prop :=
  .characters ∈ top ∨ .reference ∈ top ∨ .empty ∈ top ∧ (1 < top.countP Item.begins ∨ .words ∈ top)

instance (top : List Item) : Decidable (IsSingleRooted top) :=
  inferInstanceAs (Decidable (top.countP Item.begins = 1 ∧
    ∀ item ∈ top, item.begins = true ∨ item = .blank ∨ item = .misc))

instance (top : List Item) : Decidable (IsLoose top) :=
  inferInstanceAs (Decidable (.characters ∈ top ∨ .reference ∈ top ∨
    .empty ∈ top ∧ (1 < top.countP Item.begins ∨ .words ∈ top)))

/-- How far the check has come at the top of a document: no element has begun, only empty tags have
come, or an element has opened. -/
inductive Stage
  | prolog
  | loose
  | closed
  deriving DecidableEq

namespace Stage

def next? : Stage → Item → Option Stage
  | _, .closing => none
  | prolog, .reference => none
  | prolog, .words => none
  | prolog, .empty => some loose
  | closed, .words => none
  | closed, .opening => none
  | _, .opening => some closed
  | stage, _ => some stage

def opened : Stage → Nat
  | closed => 1
  | _ => 0

variable {stage stage' : Stage} {items : List Item}

theorem foldlM_cons_eq_some {item : Item} (h : (item :: items).foldlM next? stage = some stage') :
    ∃ next, next? stage item = some next ∧ items.foldlM next? next = some stage' := by
  rw [List.foldlM_cons] at h
  exact Option.bind_eq_some_iff.mp h

theorem count_opening (h : items.foldlM next? stage = some stage') :
    items.count .opening + stage.opened = stage'.opened := by
  induction items generalizing stage with
  | nil =>
    cases h
    exact Nat.zero_add _
  | cons item items ih =>
    obtain ⟨next, hnext, hrest⟩ := foldlM_cons_eq_some h
    have hstep : (if item = .opening then 1 else 0) + stage.opened = next.opened := by
      cases stage <;> cases item <;> cases hnext <;> rfl
    rw [← ih hrest, ← hstep, List.count_cons]
    simp only [beq_iff_eq]
    omega

theorem closing_not_mem (h : items.foldlM next? stage = some stage') : Item.closing ∉ items := by
  induction items generalizing stage with
  | nil => exact List.not_mem_nil
  | cons item items ih =>
    obtain ⟨next, hnext, hrest⟩ := foldlM_cons_eq_some h
    refine List.not_mem_cons_of_ne_of_not_mem ?_ (ih hrest)
    rintro rfl
    cases stage <;> cases hnext

theorem exists_begins (h : items.foldlM next? stage = some stage') (hne : stage' ≠ stage) :
    ∃ item ∈ items, item.begins = true := by
  induction items generalizing stage with
  | nil =>
    cases h
    exact absurd rfl hne
  | cons item items ih =>
    obtain ⟨next, hnext, hrest⟩ := foldlM_cons_eq_some h
    cases hb : item.begins with
    | true => exact ⟨item, List.mem_cons_self .., hb⟩
    | false =>
      have hstay : next = stage := by
        cases stage <;> cases item <;> cases hnext <;> first | rfl | cases hb
      obtain ⟨other, hm, hother⟩ := ih hrest (hstay ▸ hne)
      exact ⟨other, List.mem_cons_of_mem _ hm, hother⟩

theorem empty_mem_of_words_mem (h : items.foldlM next? stage = some stage')
    (hw : Item.words ∈ items) (hs : stage ≠ loose) : Item.empty ∈ items := by
  induction items generalizing stage with
  | nil => cases hw
  | cons item items ih =>
    obtain ⟨next, hnext, hrest⟩ := foldlM_cons_eq_some h
    by_cases he : item = .empty
    · exact he ▸ List.mem_cons_self ..
    · have hstep : item ≠ .words ∧ next ≠ loose := by
        cases stage <;> cases item <;> cases hnext <;> simp_all
      rcases List.mem_cons.mp hw with hw | hw
      · exact absurd hw.symm hstep.1
      · exact List.mem_cons_of_mem _ (ih hrest hw hstep.2)

/-- What the check lets stand at the top of a document is one root, unless it is loose. -/
theorem isSingleRooted_iff (h : items.foldlM next? prolog = some stage) (hs : stage ≠ prolog)
    (hstray : Item.stray ∉ items) : IsSingleRooted items ↔ ¬ IsLoose items := by
  constructor
  · rintro ⟨hone, hall⟩ (hm | hm | ⟨-, hmany | hm⟩)
    · rcases hall _ hm with h | h | h <;> cases h
    · rcases hall _ hm with h | h | h <;> cases h
    · omega
    · rcases hall _ hm with h | h | h <;> cases h
  · intro hloose
    obtain ⟨hcharacters, hrest⟩ := not_or.mp hloose
    obtain ⟨hreference, hempty⟩ := not_or.mp hrest
    have hbegins : 0 < items.countP Item.begins := List.countP_pos_iff.mpr (exists_begins h hs)
    have hone : items.countP Item.begins ≤ 1 ∧ Item.words ∉ items := by
      by_cases he : Item.empty ∈ items
      · obtain ⟨hmany, hwords⟩ := not_or.mp fun hbeside ↦ hempty ⟨he, hbeside⟩
        exact ⟨Nat.le_of_not_lt hmany, hwords⟩
      · have hcount : items.countP Item.begins = items.count .opening := by
          rw [List.count]
          refine List.countP_congr fun item hm ↦ ?_
          cases item with
          | empty => exact absurd hm he
          | _ => decide
        have hopened : stage.opened ≤ 1 := by cases stage <;> decide
        have hopening := count_opening h
        exact ⟨by omega, fun hw ↦ he (empty_mem_of_words_mem h hw (by decide))⟩
    refine ⟨by omega, fun item hm ↦ ?_⟩
    cases item with
    | blank => exact .inr (.inl rfl)
    | misc => exact .inr (.inr rfl)
    | opening => exact .inl rfl
    | empty => exact .inl rfl
    | reference => exact absurd hm hreference
    | words => exact absurd hm hone.2
    | characters => exact absurd hm hcharacters
    | stray => exact absurd hm hstray
    | closing => exact absurd hm (closing_not_mem h)

theorem next?_of_isPassed (hs : stage ≠ prolog) {item : Item} (hi : item.isPassed = true) :
    next? stage item = some stage := by
  cases stage with
  | prolog => exact absurd rfl hs
  | loose => cases item <;> first | rfl | cases hi
  | closed => cases item <;> first | rfl | cases hi

theorem foldlM_top_cons {depth : Nat} {item : Item} {next : Stage}
    (h : depth = 0 → next? stage item = some next) (h' : depth ≠ 0 → next = stage)
    (items : List Item) :
    (Item.top depth (item :: items)).foldlM next? stage =
      (Item.top (item.depthAfter depth) items).foldlM next? next := by
  rw [Item.top]
  by_cases hd : depth = 0
  · rw [if_pos hd, List.foldlM_cons, h hd]
    rfl
  · rw [if_neg hd, h' hd]

end Stage

namespace Check

def exclamationItem (s : Text) : Item :=
  if (Text.startsWith "--" s && 4 < s.length) || (Text.startsWith "DOCTYPE" s && 7 < s.length) then
    .misc
  else if Text.startsWith "[CDATA[" s && 8 < s.length then .characters
  else .stray

def Tag.item (t : Tag) : Item :=
  if t.span.inside.endsIn slash then .empty else if t.isClosing then .closing else .opening

/-- What follows an instruction, from its question mark on, which in the prolog is not part of the
end. -/
def afterInstruction (isProlog : Bool) (s : Text) : Text :=
  Text.afterOrEnd "?>" (if isProlog then s.drop 1 else s)

theorem length_afterInstruction_le (isProlog : Bool) (s : Text) :
    (afterInstruction isProlog s).length ≤ s.length := by
  refine Nat.le_trans (Text.length_afterOrEnd_le _ _) ?_
  split
  · exact (List.drop_sublist 1 s).length_le
  · exact Nat.le_refl _

def outline (isProlog : Bool) (s : Text) : List Piece :=
  match s with
  | [] => []
  | c :: s =>
    if c = less then
      if Text.startsWith "!" s then
        have := length_skipExclamation_le (s.drop 1)
        ⟨less :: s, exclamationItem (s.drop 1), skipExclamation (s.drop 1)⟩ ::
          outline isProlog (skipExclamation (s.drop 1))
      else if Text.startsWith "?" s then
        have := length_afterInstruction_le isProlog s
        ⟨less :: s, .misc, afterInstruction isProlog s⟩ ::
          outline isProlog (afterInstruction isProlog s)
      else
        have := Tag.length_next_le s
        ⟨less :: s, (Tag.read s).item, (Tag.read s).next⟩ :: outline false (Tag.read s).next
    else
      have := Text.length_dropWhile_le (· != less) s
      ⟨c :: s, .ofText (c :: s.takeWhile (· != less)), s.dropWhile (· != less)⟩ ::
        outline isProlog (s.dropWhile (· != less))
termination_by s.length
decreasing_by
  · simp_all only [List.length_cons, List.length_drop]
    omega
  all_goals
    simp_all only [List.length_cons]
    omega

variable (isProlog : Bool)

theorem outline_nil : outline isProlog [] = [] := by rw [outline]

theorem outline_exclamation (s : Text) : outline isProlog (less :: exclamation :: s) =
    ⟨less :: exclamation :: s, exclamationItem s, skipExclamation s⟩ ::
      outline isProlog (skipExclamation s) := by
  have hs : Text.startsWith "!" (exclamation :: s) = true := rfl
  rw [outline, if_pos rfl, if_pos hs, List.drop_succ_cons, List.drop_zero]

theorem outline_question (s : Text) : outline isProlog (less :: question :: s) =
    ⟨less :: question :: s, .misc, afterInstruction isProlog (question :: s)⟩ ::
      outline isProlog (afterInstruction isProlog (question :: s)) := by
  have hx : Text.startsWith "!" (question :: s) = false := rfl
  have hq : Text.startsWith "?" (question :: s) = true := rfl
  rw [outline, if_pos rfl, hx, if_neg Bool.false_ne_true, if_pos hq]

theorem outline_tag {s : Text} (h : Text.startsWith "!" s = false ∧ Text.startsWith "?" s = false) :
    outline isProlog (less :: s) =
      ⟨less :: s, (Tag.read s).item, (Tag.read s).next⟩ :: outline false (Tag.read s).next := by
  rw [outline, if_pos rfl, h.1, h.2]
  rfl

theorem outline_text {c : CodeUnit} (h : c ≠ less) (s : Text) : outline isProlog (c :: s) =
    ⟨c :: s, .ofText (c :: s.takeWhile (· != less)), s.dropWhile (· != less)⟩ ::
      outline isProlog (s.dropWhile (· != less)) := by
  rw [outline, if_neg h]

section Text

theorem dropWhile_cons_of_ne {c : CodeUnit} (h : c ≠ less) (s : Text) :
    (c :: s).dropWhile (· != less) = s.dropWhile (· != less) := by
  rw [List.dropWhile_cons, if_pos (bne_iff_ne.mpr h)]

theorem takeWhile_cons_of_ne {c : CodeUnit} (h : c ≠ less) (s : Text) :
    (c :: s).takeWhile (· != less) = c :: s.takeWhile (· != less) := by
  rw [List.takeWhile_cons, if_pos (bne_iff_ne.mpr h)]

theorem exists_of_skipNamed {n : Nat} {s t : Text} (h : skipNamed n s = some t) :
    ∃ u, s = u ++ t ∧ less ∉ u := by
  fun_induction skipNamed n s with
  | case1 =>
    cases h
    exact ⟨[], rfl, List.not_mem_nil⟩
  | case2 n c s hc ih =>
    obtain ⟨u, rfl, hu⟩ := ih h
    refine ⟨c :: u, rfl, List.not_mem_cons_of_ne_of_not_mem ?_ hu⟩
    rintro rfl
    cases hc
  | case3 => 
    cases h
    exact ⟨[semicolon], rfl, by decide⟩
  | case4 => cases h

theorem exists_of_skipNumeric {p : CodeUnit → Bool} (hp : p less = false) {s t : Text}
    (h : skipNumeric p s = some t) :
    ∃ u, s = u ++ t ∧ less ∉ u := by
  rw [skipNumeric] at h
  split at h
  · next hend =>
    obtain ⟨rest, hrest⟩ := Text.eq_cons_of_startsWith hend
    rw [hrest] at h
    cases h
    refine ⟨s.takeWhile p ++ [semicolon], ?_, List.not_mem_append (fun hm ↦ ?_) (by decide)⟩
    · rw [List.append_assoc, List.singleton_append]
      exact (List.takeWhile_append_dropWhile).symm.trans (congrArg _ hrest)
    · exact Bool.false_ne_true (hp.symm.trans (List.all_eq_true.mp List.all_takeWhile _ hm))
  · cases h

theorem exists_of_skipReference? {s t : Text} (h : skipReference? s = some t) :
    ∃ u, s = u ++ t ∧ less ∉ u := by
  rw [skipReference?] at h
  split at h
  · cases h
  · split at h
    · next hx =>
      obtain ⟨rest, rfl⟩ := List.isPrefixOf_iff_prefix.mp hx
      obtain ⟨u, hu, hl⟩ := exists_of_skipNumeric rfl h
      refine ⟨("#x" : Text) ++ u, ?_, List.not_mem_append (by decide) hl⟩
      rw [List.append_assoc, ← hu]
      rfl
    · split at h
      · next hn =>
        obtain ⟨rest, rfl⟩ := Text.eq_cons_of_startsWith hn
        obtain ⟨u, hu, hl⟩ := exists_of_skipNumeric rfl h
        exact ⟨numberSign :: u, congrArg _ hu, List.not_mem_cons_of_ne_of_not_mem (by decide) hl⟩
      · exact exists_of_skipNamed h

/-- The check passes over a text up to the next markup. After the root it stops at what is neither
white space nor behind an ampersand. -/
theorem skipContent_text {isAfterRoot : Bool} {s : Text} {o : Option Text}
    (h : skipContent isAfterRoot s = .ok o) :
    skipContent isAfterRoot (s.dropWhile (· != less)) = .ok o ∧
      (isAfterRoot = true → (∀ c ∈ s.takeWhile (· != less), c.isXmlSpace = true) ∨
        ampersand ∈ s.takeWhile (· != less)) := by
  have hless (s : Text) :
      (less :: s).dropWhile (· != less) = less :: s ∧ (less :: s).takeWhile (· != less) = [] :=
    ⟨rfl, rfl⟩
  fun_induction skipContent isAfterRoot s with
  | case1 =>
    rw [List.dropWhile_nil, skipContent]
    exact ⟨h, fun _ ↦ .inl fun _ hm ↦ absurd hm List.not_mem_nil⟩
  | case2 s hs _ _ =>
    rw [(hless s).1, (hless s).2, skipContent, if_pos rfl, if_pos hs]
    exact ⟨h, fun _ ↦ .inl fun _ hm ↦ absurd hm List.not_mem_nil⟩
  | case3 s hs hq _ _ =>
    rw [(hless s).1, (hless s).2, skipContent, if_pos rfl, if_neg hs, if_pos hq]
    exact ⟨h, fun _ ↦ .inl fun _ hm ↦ absurd hm List.not_mem_nil⟩
  | case4 s hs hq =>
    rw [(hless s).1, (hless s).2, skipContent, if_pos rfl, if_neg hs, if_neg hq]
    exact ⟨h, fun _ ↦ .inl fun _ hm ↦ absurd hm List.not_mem_nil⟩
  | case5 s t ht _ _ ih =>
    obtain ⟨u, rfl, hu⟩ := exists_of_skipReference? ht
    have hp : ∀ d ∈ ampersand :: u, (d != less) = true := by
      intro d hd
      rw [bne_iff_ne]
      rintro rfl
      rcases List.mem_cons.mp hd with hd | hd
      · exact absurd hd (by decide)
      · exact hu hd
    rw [← List.cons_append, List.dropWhile_append_of_pos hp]
    exact ⟨(ih h).1, fun _ ↦ .inr (List.mem_cons_self ..)⟩
  | case6 => cases h
  | case7 => cases h
  | case8 c s hl _ hc ih =>
    obtain ⟨hrest, hclass⟩ := ih h
    rw [dropWhile_cons_of_ne hl, takeWhile_cons_of_ne hl]
    refine ⟨hrest, fun hroot ↦ ?_⟩
    have hspace : c.isXmlSpace = true := by simpa [hroot] using hc
    rcases hclass hroot with hall | hm
    · exact .inl (List.forall_mem_cons.mpr ⟨hspace, hall⟩)
    · exact .inr (List.mem_cons_of_mem c hm)

theorem skipProlog_text {isStart : Bool} {s : Text} {o : Option Text}
    (h : skipProlog isStart s = .ok o) :
    (∃ isStart', skipProlog isStart' (s.dropWhile (· != less)) = .ok o) ∧
      ∀ c ∈ s.takeWhile (· != less), c.isXmlSpace = true := by
  induction s generalizing isStart with
  | nil => exact ⟨⟨isStart, h⟩, fun _ hm ↦ absurd hm List.not_mem_nil⟩
  | cons c s ih =>
    by_cases hl : c = less
    · subst hl
      exact ⟨⟨isStart, h⟩, fun _ hm ↦ absurd hm List.not_mem_nil⟩
    · rw [skipProlog, if_neg hl] at h
      split at h
      · next hc =>
        obtain ⟨hrest, hall⟩ := ih h
        rw [dropWhile_cons_of_ne hl, takeWhile_cons_of_ne hl]
        exact ⟨hrest, List.forall_mem_cons.mpr ⟨hc, hall⟩⟩
      · cases h

end Text

section Run

variable {p p' : Progress} {s : Text}

def Progress.stage (p : Progress) : Stage :=
  if p.rootClosed || !p.opened.isEmpty then .closed else .loose

theorem Progress.stage_ne_prolog (p : Progress) : p.stage ≠ .prolog := by
  rw [stage]
  split <;> decide

theorem Progress.stage_of_ne_nil (h : p.opened ≠ []) : p.stage = .closed := by
  obtain ⟨o, opened, ho⟩ := List.exists_cons_of_ne_nil h
  rw [stage, ho, List.isEmpty_cons, Bool.not_false, Bool.or_true, if_pos rfl]

theorem Progress.stage_of_eq_nil (h : p.opened = []) :
    p.stage = if p.rootClosed then .closed else .loose := by
  rw [stage, h, List.isEmpty_nil, Bool.not_true, Bool.or_false]

inductive Progress.Takes (p : Progress) : Item → Progress → Prop
  | empty : Takes p .empty p
  | closing {o : OpenTag} {opened : List OpenTag} :
      p.opened = o :: opened → Takes p .closing ⟨opened, p.rootClosed || opened.isEmpty⟩
  | opening (o : OpenTag) : p.rootClosed = false → Takes p .opening ⟨o :: p.opened, p.rootClosed⟩

theorem Progress.takes_of_judge {t : Tag} (h : p.judge s t = .ok p') : p.Takes t.item p' := by
  have hbind {marks : List Attribute.Mark} {x : Except Failure Progress}
      (h : (judgeAttributes t.afterName [] marks >>= fun _ ↦ x) = .ok p') : x = .ok p' := by
    cases hj : judgeAttributes t.afterName [] marks with
    | error e =>
      rw [hj] at h
      cases h
    | ok _ => rwa [hj] at h
  rw [judge] at h
  rw [Tag.item]
  split at h
  · cases h
  · split at h
    · cases h
    · split at h
      · next he =>
        cases hbind h
        rw [if_pos he]
        exact .empty
      · next he =>
        rw [if_neg he]
        split at h
        · next hc =>
          rw [if_pos hc]
          split at h
          · cases h
          · split at h
            · cases h
            · split at h
              · cases h
              · next ho =>
                split at h
                · cases h
                · cases h
                  exact .closing ho
        · next hc =>
          rw [if_neg hc]
          have h := hbind h
          split at h
          · cases h
          · next hr =>
            cases h
            exact .opening _ (Bool.eq_false_iff.mpr hr)

def Progress.IsProper (p : Progress) : Prop := p.rootClosed = true → p.opened = []

theorem Progress.Takes.isProper {item : Item} (h : p.Takes item p') (hp : p.IsProper) :
    p'.IsProper := by
  cases h with
  | empty => exact hp
  | closing ho =>
    intro hr
    rcases Bool.or_eq_true_iff.mp hr with hr | hr
    · cases ho.symm.trans (hp hr)
    · exact List.isEmpty_iff.mp hr
  | opening _ hr => exact fun hr' ↦ absurd hr' (ne_true_of_eq_false hr)

theorem Progress.Takes.depth {item : Item} (h : p.Takes item p') :
    p'.opened.length = item.depthAfter p.opened.length := by
  cases h with
  | empty => rfl
  | closing ho =>
    rw [ho]
    rfl
  | opening _ _ => rfl

theorem Progress.Takes.stage {item : Item} (h : p.Takes item p') :
    (p.opened.length = 0 → Stage.next? p.stage item = some p'.stage) ∧
      (p.opened.length ≠ 0 → p'.stage = p.stage) := by
  cases h with
  | empty =>
    refine ⟨fun _ ↦ ?_, fun _ ↦ rfl⟩
    have hp := p.stage_ne_prolog
    cases hs : p.stage with
    | prolog => exact absurd hs hp
    | loose => rfl
    | closed => rfl
  | @closing o opened ho =>
    have hclosed : Progress.stage ⟨opened, p.rootClosed || opened.isEmpty⟩ = .closed := by
      rw [Progress.stage]
      cases opened.isEmpty <;> simp
    refine ⟨fun hd ↦ ?_, fun _ ↦ ?_⟩
    · rw [ho] at hd
      cases hd
    · rw [hclosed, Progress.stage_of_ne_nil (ho ▸ List.cons_ne_nil o opened)]
  | opening o hr =>
    have hclosed : Progress.stage ⟨o :: p.opened, p.rootClosed⟩ = .closed :=
      Progress.stage_of_ne_nil (List.cons_ne_nil o p.opened)
    refine ⟨fun hd ↦ ?_, fun hd ↦ ?_⟩
    · rw [hclosed, Progress.stage_of_eq_nil (List.length_eq_zero_iff.mp hd), hr]
      rfl
    · rw [hclosed, Progress.stage_of_ne_nil (mt List.length_eq_zero_iff.mpr hd)]

theorem resume_exclamation (p : Progress) (s : Text) :
    resume p (less :: exclamation :: s) = resume p (skipExclamation s) := by
  rw [resume, resume, skipContent_exclamation]

theorem resume_question (p : Progress) (s : Text) :
    resume p (less :: question :: s) = resume p (afterInstruction false (question :: s)) := by
  rw [resume, resume, skipContent_question]
  rfl

theorem resume_text (h : resume p s = .ok p') :
    resume p (s.dropWhile (· != less)) = .ok p' ∧
      (p.rootClosed = true → (∀ c ∈ s.takeWhile (· != less), c.isXmlSpace = true) ∨
        ampersand ∈ s.takeWhile (· != less)) := by
  rw [resume] at h
  cases hs : skipContent p.rootClosed s with
  | error e =>
    rw [hs] at h
    cases h
  | ok o =>
    obtain ⟨hrest, hclass⟩ := skipContent_text hs
    rw [hs] at h
    refine ⟨?_, hclass⟩
    rwa [resume, hrest]

theorem isPassed_exclamationItem (s : Text) :
    (exclamationItem s).isPassed = true ∧ exclamationItem s ≠ .reference := by
  rw [exclamationItem]
  split
  · decide
  · split <;> decide

/-- Induction along the pieces of a text. -/
theorem outline_induction (isProlog : Bool) {motive : Text → Prop} (nil : motive [])
    (exclamation : ∀ s, motive (skipExclamation s) → motive (less :: CodeUnit.exclamation :: s))
    (question : ∀ s, motive (afterInstruction isProlog (CodeUnit.question :: s)) →
      motive (less :: CodeUnit.question :: s))
    (tag : ∀ s, Text.startsWith "!" s = false ∧ Text.startsWith "?" s = false →
      motive (Tag.read s).next →
      motive (less :: s))
    (text : ∀ c s, c ≠ less → motive (s.dropWhile (· != less)) → motive (c :: s))
    (s : Text) : motive s := by
  induction hn : s.length using Nat.strong_induction_on generalizing s with
  | _ n ih =>
    cases s with
    | nil => exact nil
    | cons c s =>
      rw [List.length_cons] at hn
      by_cases hc : c = less
      · subst hc
        by_cases hx : Text.startsWith "!" s = true
        · obtain ⟨t, ht⟩ : ∃ t, s = CodeUnit.exclamation :: t := Text.eq_cons_of_startsWith hx
          subst ht
          have hl := length_skipExclamation_le t
          rw [List.length_cons] at hn
          exact exclamation t (ih _ (by omega) _ rfl)
        · by_cases hq : Text.startsWith "?" s = true
          · obtain ⟨t, ht⟩ : ∃ t, s = CodeUnit.question :: t := Text.eq_cons_of_startsWith hq
            subst ht
            have hl := length_afterInstruction_le isProlog (CodeUnit.question :: t)
            exact question t (ih _ (by omega) _ rfl)
          · have hl := Tag.length_next_le s
            exact tag s ⟨Bool.eq_false_iff.mpr hx, Bool.eq_false_iff.mpr hq⟩ (ih _ (by omega) _ rfl)
      · have hl := Text.length_dropWhile_le (· != less) s
        exact text c s hc (ih _ (by omega) _ rfl)

theorem foldlM_of_resume (hp : p.IsProper) (h : resume p s = .ok p') :
    (Item.top p.opened.length ((outline false s).map Piece.item)).foldlM Stage.next? p.stage =
      some p'.stage := by
  have hpassed {p : Progress} {item : Item} (hi : item.isPassed = true) (items : List Item) :
      (Item.top p.opened.length (item :: items)).foldlM Stage.next? p.stage =
        (Item.top p.opened.length items).foldlM Stage.next? p.stage := by
    rw [Stage.foldlM_top_cons (fun _ ↦ Stage.next?_of_isPassed p.stage_ne_prolog hi) (fun _ ↦ rfl),
      Item.depthAfter_of_isPassed hi]
  induction s using outline_induction false generalizing p with
  | nil =>
    rw [resume, skipContent] at h
    cases h
    rw [outline_nil]
    rfl
  | exclamation s ih =>
    rw [resume_exclamation] at h
    rw [outline_exclamation, List.map_cons, hpassed (isPassed_exclamationItem s).1]
    exact ih hp h
  | question s ih =>
    rw [resume_question] at h
    rw [outline_question, List.map_cons, hpassed rfl]
    exact ih hp h
  | tag s hs ih =>
    rw [resume_less p hs, run_eq] at h
    cases hj : p.judge s (Tag.read s) with
    | error e =>
      rw [hj] at h
      cases h
    | ok next =>
      rw [hj] at h
      have htakes := Progress.takes_of_judge hj
      obtain ⟨hstage, hstay⟩ := htakes.stage
      rw [outline_tag false hs, List.map_cons, Stage.foldlM_top_cons hstage hstay, ← htakes.depth]
      exact ih (htakes.isProper hp) h
  | text c s hc ih =>
    obtain ⟨hrest, hclass⟩ := resume_text h
    rw [dropWhile_cons_of_ne hc] at hrest
    rw [takeWhile_cons_of_ne hc] at hclass
    rw [outline_text false hc, List.map_cons, ← ih hp hrest]
    rcases Item.ofText_cases (c :: s.takeWhile (· != less)) with hi | hi | ⟨hi, hwords⟩
    · exact hpassed (hi ▸ rfl) _
    · exact hpassed (hi ▸ rfl) _
    · have hr : p.rootClosed = false := Bool.eq_false_iff.mpr fun hr ↦ hwords (hclass hr)
      rw [hi, Stage.foldlM_top_cons (fun hd ↦ ?_) (fun _ ↦ rfl)]
      · rfl
      · rw [Progress.stage_of_eq_nil (List.length_eq_zero_iff.mp hd), hr]
        rfl

theorem foldlM_of_skipProlog {isStart : Bool} {rest : Text}
    (h : skipProlog isStart s = .ok (some rest)) (hrun : run {} rest = .ok p) :
    (Item.top 0 ((outline true s).map Piece.item)).foldlM Stage.next? .prolog = some p.stage := by
  have hpassed {item : Item} (hi : item.isPassed = true ∧ item ≠ .reference) (items : List Item) :
      (Item.top 0 (item :: items)).foldlM Stage.next? .prolog =
        (Item.top 0 items).foldlM Stage.next? .prolog := by
    have hnext : Stage.next? .prolog item = some .prolog := by
      cases item with
      | reference => exact absurd rfl hi.2
      | _ => first | rfl | cases hi.1
    rw [Stage.foldlM_top_cons (fun _ ↦ hnext) (fun _ ↦ rfl), Item.depthAfter_of_isPassed hi.1]
  have hmisc := hpassed (show Item.misc.isPassed = true ∧ Item.misc ≠ .reference by decide)
  have hblank := hpassed (show Item.blank.isPassed = true ∧ Item.blank ≠ .reference by decide)
  induction s using outline_induction true generalizing isStart with
  | nil =>
    rw [skipProlog] at h
    cases h
  | exclamation s ih =>
    rw [skipProlog_exclamation] at h
    rw [outline_exclamation, List.map_cons, hpassed (isPassed_exclamationItem s)]
    exact ih h
  | question s ih =>
    have hx : Text.startsWith "!" (question :: s) = false := rfl
    have hq : Text.startsWith "?" (question :: s) = true := rfl
    rw [skipProlog, if_pos rfl, hx, if_neg Bool.false_ne_true, if_pos hq] at h
    split at h
    · cases h
    · rw [outline_question, List.map_cons, hmisc]
      exact ih h
  | tag s hs _ =>
    rw [skipProlog, if_pos rfl, hs.1, if_neg Bool.false_ne_true, hs.2,
      if_neg Bool.false_ne_true] at h
    cases h
    -- The first tag stands at the top, where it counts alike in the prolog and behind it.
    have hfold : (Item.top 0 ((outline false (less :: rest)).map Piece.item)).foldlM Stage.next?
        .loose = some p.stage :=
      foldlM_of_resume (p := {}) (fun hr ↦ by cases hr) ((resume_less {} hs).trans hrun)
    rw [outline_tag _ hs, List.map_cons, Item.top, if_pos rfl, List.foldlM_cons] at hfold ⊢
    rw [← hfold]
    have hnext : Stage.next? .prolog (Tag.read rest).item =
        Stage.next? .loose (Tag.read rest).item := by
      rw [Tag.item]
      split
      · rfl
      · split <;> rfl
    exact congrArg (· >>= _) hnext
  | text c s hc ih =>
    obtain ⟨⟨isStart', hrest⟩, hspace⟩ := skipProlog_text h
    rw [dropWhile_cons_of_ne hc] at hrest
    rw [takeWhile_cons_of_ne hc] at hspace
    have hitem : Item.ofText (c :: s.takeWhile (· != less)) = .blank :=
      if_pos (List.all_eq_true.mpr hspace)
    rw [outline_text true hc, List.map_cons, hitem, hblank]
    exact ih hrest

end Run

theorem exists_of_check {s : Text} (h : check s = .ok ()) :
    ∃ rest p, skipProlog true s = .ok (some rest) ∧ run {} rest = .ok p := by
  rw [check] at h
  cases hs : skipProlog true s with
  | error e =>
    rw [hs] at h
    cases h
  | ok o =>
    cases o with
    | none =>
      rw [hs] at h
      cases h
    | some rest =>
      cases hr : run {} rest with
      | error e =>
        simp only [hs, hr, bind, Except.bind] at h
        cases h
      | ok p => exact ⟨rest, p, rfl, hr⟩

/-- What a document that passes has at its top. -/
theorem exists_foldlM_of_check {s : Text} (h : check s = .ok ()) :
    ∃ stage, stage ≠ .prolog ∧
      (Item.top 0 ((outline true s).map Piece.item)).foldlM Stage.next? .prolog = some stage := by
  obtain ⟨rest, p, hs, hrun⟩ := exists_of_check h
  exact ⟨p.stage, p.stage_ne_prolog, foldlM_of_skipProlog hs hrun⟩

end Check
end AnalysisProject.Markup
