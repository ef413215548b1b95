import AnalysisProject.Markup.Document
import AnalysisProject.Proofs.Markup.Escaping
import AnalysisProject.Proofs.Markup.Spelling

namespace AnalysisProject.Markup

open CodeUnit

namespace ReadFailure

def excess (n : Nat) : ReadFailure := expansion (.tooMany n)

end ReadFailure

namespace Frame

def addText (s : Text) (f : Frame) : Frame := if s.isEmpty then f else f.push (.text s)

/-- What becomes of an element when text stands before a tag; the document itself keeps no text
there. -/
def beforeTag (s : Text) (f : Frame) : Frame := if f.name == document.name then f else f.addText s

theorem close_eq {f : Frame} (h : f.name.IsPlainName) :
    f.close = .element f.name f.attributes f.children.reverse := by
  rw [close, if_neg (by simpa using h.ne_reserved.1)]

end Frame

namespace Expansion

/-- `raw` is read as `s`, and `n` references in it count. -/
structure Stands (raw s : Text) (n : Nat) : Prop where
  decode : ∀ x : Expansion, x.count ≤ maxCount →
    Metered .tooMany (x.count + n) (x.decode [] raw) (x.charge n, s)
  empty : raw.isEmpty = true → s = [] ∧ n = 0

theorem stands_self {s : Text} (h : ampersand ∉ s) : Stands s s 0 where
  decode x hx := by
    have hc : (!List.contains s ampersand) = true := by simpa using h
    rw [Expansion.decode, if_pos hc]
    exact .ok _ hx
  empty hs := ⟨List.isEmpty_iff.mp hs, rfl⟩

theorem stands_escape (s : Text) : Stands (Reference.escape s) s (Reference.weight s) where
  decode x hx := decode_escape x hx s
  empty hs := by
    have he := List.isEmpty_iff.mp hs
    obtain ⟨hself, hweight⟩ := Reference.escape_of_not_mem (s := s) (he ▸ List.not_mem_nil)
    exact ⟨hself ▸ he, hweight⟩

end Expansion

inductive StandFor : List (Text × Text) → Attributes → Nat → Prop
  | nil : StandFor [] [] 0
  | cons {name raw s : Text} {raws : List (Text × Text)} {attributes : Attributes} {m n : Nat} :
      Expansion.Stands raw s m → StandFor raws attributes n →
      StandFor ((name, raw) :: raws) ((name, s) :: attributes) (m + n)

theorem StandFor.names {raws : List (Text × Text)} {attributes : Attributes} {n : Nat}
    (h : StandFor raws attributes n) :
    raws.map Prod.fst = attributes.map Prod.fst := by
  induction h with
  | nil => rfl
  | cons _ _ ih => rw [List.map_cons, List.map_cons, ih]

theorem StandFor.nodup {t : WrittenTag} (ht : t.IsSound) {attributes : Attributes} {n : Nat}
    (h : StandFor t.assignments attributes n) : (attributes.map Prod.fst).Nodup := by
  have hnodup := ht.nodup
  rw [← h.names, WrittenTag.assignments, List.map_map]
  exact hnodup

theorem Attributes.set_eq_append {attributes : Attributes} {name : Text}
    (h : name ∉ attributes.map Prod.fst) (value : Text) : attributes.set name value = attributes ++
      [(name, value)] := by
  induction attributes with
  | nil => rfl
  | cons a attributes ih =>
    obtain ⟨key, v⟩ := a
    rw [List.map_cons, List.mem_cons, not_or] at h
    rw [set, if_neg (Ne.symm h.1), ih h.2, List.cons_append]

namespace Reading

def inside (frame : Frame) (ancestors : List Frame) (pending : Text) (count : Nat) : Reading :=
  ⟨.within frame ancestors, pending, [], ⟨count, 0⟩⟩

/-- From `r`, the text leads to `r'`, as long as the references that count stay within their limit.
-/
def Leads (r : Reading) (s : Text) (r' : Reading) : Prop :=
  r.expansion.count ≤ r'.expansion.count ∧ (r.expansion.count ≤ Expansion.maxCount → ∀ rest,
    (r'.expansion.count ≤ Expansion.maxCount → r.run (s ++ rest) = r'.run rest) ∧
    (Expansion.maxCount < r'.expansion.count →
      ∃ n, Expansion.maxCount < n ∧ r.run (s ++ rest) = .error (.excess n)))

theorem Leads.refl (r : Reading) : r.Leads [] r :=
  ⟨Nat.le_refl _, fun hr _ ↦ ⟨fun _ ↦ rfl, fun hn ↦ absurd hr (Nat.not_le.mpr hn)⟩⟩

theorem Leads.trans {r₁ r₂ r₃ : Reading} {s t : Text} (h : r₁.Leads s r₂) (h' : r₂.Leads t r₃) :
    r₁.Leads (s ++ t) r₃ := by
  refine ⟨Nat.le_trans h.1 h'.1, fun h₁ rest ↦ ?_⟩
  rw [List.append_assoc]
  by_cases h₂ : r₂.expansion.count ≤ Expansion.maxCount
  · rw [(h.2 h₁ (t ++ rest)).1 h₂]
    exact h'.2 h₂ rest
  · have h₂ := Nat.not_le.mp h₂
    exact ⟨fun h₃ ↦ absurd (Nat.le_trans h'.1 h₃) (Nat.not_le.mpr h₂), fun _ ↦
      (h.2 h₁ (t ++ rest)).2 h₂⟩

theorem run_text (r : Reading) {s : Text} (h : less ∉ s) (rest : Text) :
    r.run (s ++ rest) = run { r with pending := r.pending ++ s } rest := by
  cases s with
  | nil => rw [List.append_nil, List.nil_append]
  | cons c t =>
    obtain ⟨hc, ht⟩ := not_or.mp (mt List.mem_cons.mpr h)
    have hp : ∀ d ∈ t, (d != less) = true := fun d hd ↦ bne_iff_ne.mpr fun he ↦ ht (he ▸ hd)
    rw [List.cons_append, run, if_neg (Ne.symm hc), List.takeWhile_append_of_pos hp,
      List.dropWhile_append_of_pos hp]
    cases rest with
    | nil => simp
    | cons d u =>
      by_cases hd : d = less
      · subst hd
        simp
      · have hd' : (d != less) = true := bne_iff_ne.mpr hd
        conv => rhs; rw [run, if_neg hd]
        simp only [List.takeWhile_cons, List.dropWhile_cons, hd', if_true, List.append_assoc,
          List.cons_append]

theorem leads_text (r : Reading) {s : Text} (h : less ∉ s) :
    r.Leads s { r with pending := r.pending ++ s } :=
  ⟨Nat.le_refl _, fun hr rest ↦ ⟨fun _ ↦ r.run_text h rest, fun hn ↦ absurd hr (Nat.not_le.mpr hn)⟩⟩

theorem run_less (r : Reading) (s : Text) :
    r.run (less :: s) = r.takeMarkup s >>= fun p ↦ p.1.run p.2 := by
  rw [run, if_pos rfl]
  split
  · next he => exact congrArg (· >>= fun p : Reading × Text ↦ p.1.run p.2) he.symm
  · next hr => exact congrArg (· >>= fun p : Reading × Text ↦ p.1.run p.2) hr.symm

theorem leads_of_takeMarkup {r r' : Reading} {s : Text}
    (hle : r.expansion.count ≤ r'.expansion.count) (h : r.expansion.count ≤ Expansion.maxCount →
      ∀ rest, Metered .excess r'.expansion.count (r.takeMarkup (s ++ rest)) (r', rest)) :
    r.Leads (less :: s) r' := by
  refine ⟨hle, fun hr rest ↦ ?_⟩
  rw [List.cons_append, run_less]
  constructor
  · intro hn
    rw [(h hr rest).1 hn]
    rfl
  · intro hn
    obtain ⟨k, hk, he⟩ := (h hr rest).2 hn
    exact ⟨k, hk, by rw [he]; rfl⟩

section Steps

variable (f : Frame) (ancestors : List Frame) (count : Nat)

theorem decode_metered {raw s : Text} {n : Nat} (h : Expansion.Stands raw s n) (r : Reading)
    (hr : r.entities = []) (hx : r.expansion.count ≤ Expansion.maxCount) :
    Metered .excess (r.expansion.count + n) (r.decode raw)
      ({ r with expansion := r.expansion.charge n }, s) := by
  have hd := h.decode r.expansion hx
  constructor
  · intro hn
    rw [decode, hr, hd.1 hn]
  · intro hn
    obtain ⟨k, hk, he⟩ := hd.2 hn
    exact ⟨k, hk, by rw [decode, hr, he]; rfl⟩

theorem flush_metered {raw s : Text} {n : Nat} (h : Expansion.Stands raw s n)
    (hx : count ≤ Expansion.maxCount) :
    Metered .excess (count + n) (inside f ancestors raw count).flush
      (inside (f.addText s) ancestors [] (count + n)) := by
  by_cases hraw : raw.isEmpty
  · obtain ⟨rfl, rfl⟩ := h.empty hraw
    obtain rfl := List.isEmpty_iff.mp hraw
    exact .ok _ hx
  · rw [flush, inside, if_neg hraw]
    refine (decode_metered h (inside f ancestors raw count) rfl hx).bind (Nat.le_refl _) fun hm ↦ ?_
    exact .ok _ hm

/-- Text before a tag is white space and the like: nothing in it stands for another character. -/
theorem flushBeforeTag_inside {s : Text} (h : ampersand ∉ s) (hx : count ≤ Expansion.maxCount) :
    ∃ pending, (inside f ancestors s count).flushBeforeTag =
      .ok (inside (f.beforeTag s) ancestors pending count) := by
  have hflush := (flush_metered f ancestors count (Expansion.stands_self h) hx).1 hx
  have hbefore : (inside f ancestors s count).flushBeforeTag =
      if f.name == Frame.document.name then .ok (inside f ancestors s count)
      else (inside f ancestors s count).flush := rfl
  rw [hbefore, Frame.beforeTag]
  cases f.name == Frame.document.name with
  | true => exact ⟨s, rfl⟩
  | false => exact ⟨[], hflush⟩

theorem takeMarkup_close (r : Reading) {name space : Text} (hn : greater ∉ name)
    (hs : greater ∉ space) (rest : Text) :
    r.takeMarkup (slash :: (name ++ (space ++ [greater])) ++ rest) = r.closeTag.map fun r ↦
      (r, rest) := by
  have hsplit : Text.splitFirst? [greater] (slash :: (name ++ (space ++ greater :: rest))) =
      some (slash :: (name ++ space), rest) := by
    have h := Text.splitFirst?_unit (c := greater) (s := slash :: (name ++ space))
      (by simp [hn, hs, greater, slash]) rest
    rwa [List.cons_append, List.append_assoc] at h
  have hstart : Text.startsWith "/" (slash :: (name ++ (space ++ greater :: rest))) = true := rfl
  have ha : Text.after? ">" (slash :: (name ++ (space ++ greater :: rest))) = some rest :=
    congrArg (Option.map Prod.snd) hsplit
  rw [List.cons_append, List.append_assoc, List.append_assoc, List.singleton_append, takeMarkup,
    if_pos hstart, ha]

theorem leads_close (parent : Frame) {raw s : Text} {n : Nat} (h : Expansion.Stands raw s n)
    {name space : Text} (hn : greater ∉ name) (hs : greater ∉ space) :
    (inside f (parent :: ancestors) raw count).Leads (WrittenTag.closeText name space)
      (inside (parent.push (f.addText s).close) ancestors [] (count + n)) := by
  refine leads_of_takeMarkup (Nat.le_add_right _ _) fun hx rest ↦ ?_
  have hclose : (inside f (parent :: ancestors) raw count).closeTag =
      (inside f (parent :: ancestors) raw count).flush >>= fun r ↦
        .ok { r with cursor := r.cursor.leave, pending := [] } := rfl
  rw [takeMarkup_close _ hn hs, hclose]
  refine Metered.map ?_ fun r ↦ (r, rest)
  refine (flush_metered f (parent :: ancestors) count h hx).bind (Nat.le_refl _) fun hm ↦ ?_
  exact .ok _ hm

end Steps

section Tags

variable {t : WrittenTag} (ht : t.IsSound)

theorem keepsSpace_blankTab : KeepsSpace blankTab where
  isXmlSpace c hc := by
    rw [blankTab]
    split
    · rfl
    · exact hc
  eq_self c hc := by
    refine if_neg ?_
    rintro rfl
    cases hc

include ht

theorem tag?_open (rest : Text) :
    tag? (t.name ++ (t.inside ++ greater :: rest)) =
      some (t.name ++ (t.mapSpace blankTab).inside, rest) := by
  have hname : t.name.map blankTab = t.name :=
    keepsSpace_blankTab.map_eq_self fun c hc ↦ isXmlSpace_of_isPlain (ht.name.isPlain c hc)
  rw [tag?, spanTag_append fun c hc ↦ outside_quotes_of_isPlain (ht.name.isPlain c hc), hname,
    ht.spanTag_inside keepsSpace_blankTab, spanTag, if_pos rfl]
  simp [TagSpan.prepend]

theorem tag?_empty (rest : Text) :
    tag? (t.name ++ (t.inside ++ slash :: greater :: rest)) =
      some (t.name ++ ((t.mapSpace blankTab).inside ++ [slash]), rest) := by
  have hname : t.name.map blankTab = t.name :=
    keepsSpace_blankTab.map_eq_self fun c hc ↦ isXmlSpace_of_isPlain (ht.name.isPlain c hc)
  have hslash : spanTag blankTab none (slash :: greater :: rest) =
      (spanTag blankTab none (greater :: rest)).prepend [slash] :=
    spanTag_append (s := [slash]) (by decide) _
  rw [tag?, spanTag_append fun c hc ↦ outside_quotes_of_isPlain (ht.name.isPlain c hc), hname,
    ht.spanTag_inside keepsSpace_blankTab, hslash, spanTag, if_pos rfl]
  simp [TagSpan.prepend]

theorem trimStart_inside :
    t.inside.trimStart ≠ t.name ∧ Attribute.assignments t.inside.trimStart = t.assignments := by
  cases ha : t.attributes with
  | nil =>
    have hi : t.inside.trimStart = [] := by
      rw [WrittenTag.inside, ha]
      exact (List.append_nil t.last ▸ ht.last.trimStart_append []).trans rfl
    rw [hi, WrittenTag.assignments, ha]
    exact ⟨Ne.symm ht.name.ne_nil, Attribute.assignments_of_isSpace (s := []) fun _ h ↦
      absurd h List.not_mem_nil⟩
  | cons a attributes =>
    -- What is trimmed is the white space before the first attribute.
    obtain ⟨hsound, -⟩ := ht.attributes a (ha ▸ List.mem_cons_self ..)
    let b : WrittenAttribute := { a with space := [] }
    have hb : b.IsSound := { hsound with space := fun _ h ↦ absurd h List.not_mem_nil }
    obtain ⟨c, name, hn⟩ := List.exists_cons_of_ne_nil hsound.name.ne_nil
    have hi : t.inside.trimStart = (b :: attributes).flatMap WrittenAttribute.text ++ t.last := by
      have hc : c.isBlank = false :=
        isBlank_of_isPlain (hsound.name.isPlain c (hn ▸ List.mem_cons_self ..))
      rw [WrittenTag.inside, ha, List.flatMap_cons, List.append_assoc, WrittenAttribute.text,
        List.append_assoc, hsound.space.trimStart_append, hn, List.cons_append, List.cons_append,
        Text.trimStart_cons hc]
      simp [b, WrittenAttribute.text, WrittenAttribute.assignment, hn]
    constructor
    · intro he
      have hm : equal ∈ t.name := by
        rw [← he, hi]
        simp [b, WrittenAttribute.text, WrittenAttribute.assignment]
      exact ht.name.not_mem (c := equal) rfl hm
    · rw [hi, Attribute.assignments_flatMap (fun d hd ↦ ?_) ht.last, WrittenTag.assignments, ha]
      · rfl
      · rcases List.mem_cons.mp hd with rfl | hd
        · exact hb
        · exact (ht.attributes d (ha ▸ List.mem_cons_of_mem _ hd)).1

omit ht in
theorem splitName_plain {s : Text} (h : ∀ c ∈ s, c.isBlank = false) : splitName s = (s, s) := by
  have hs : s.any CodeUnit.isBlank = false := by simpa using h
  rw [splitName, hs]
  rfl

omit ht in
theorem splitName_space {name : Text} (h : name.IsPlainName) {c : CodeUnit}
    (hc : c.isXmlSpace = true) (rest : Text) :
    splitName (name ++ c :: rest) = (name, Text.trimStart (c :: rest)) := by
  have hb : c.isBlank = true := isBlank_of_isXmlSpace hc
  have hany : (name ++ c :: rest).any CodeUnit.isBlank = true := by simp [hb]
  have hn : ∀ d ∈ name, (!d.isBlank) = true :=
    fun d hd ↦ by simp [isBlank_of_isPlain (h.isPlain d hd)]
  rw [splitName, if_pos hany, List.takeWhile_append_of_pos hn, List.dropWhile_append_of_pos hn]
  simp [hb]

omit ht in
theorem ne_textName {s : Text} (h : numberSign ∉ s) : (s == Node.textName) = false := by
  rw [beq_eq_false_iff_ne]
  rintro rfl
  exact h (by decide)

theorem assignments_eq_nil (hi : t.inside = []) : t.assignments = [] := by
  have h := (trimStart_inside ht).2
  rw [hi] at h
  exact h.symm.trans (Attribute.assignments_of_isSpace (s := []) fun _ h ↦
    absurd h List.not_mem_nil)

theorem takeTag_open (r : Reading) :
    r.takeTag (t.name ++ t.inside) = r.openElement t.name t.assignments := by
  have htext : (t.name == Node.textName) = false := ne_textName (ht.name.not_mem rfl)
  -- Without a blank, the reader gets the name for the attributes, too, and takes that for a tag
  -- that has none.
  rcases ht.inside_cases with hi | ⟨c, s, hi, hc⟩
  · rw [assignments_eq_nil ht hi, hi, List.append_nil, takeTag, splitName_plain fun c hc ↦
      isBlank_of_isPlain (ht.name.isPlain c hc)]
    simp only [htext, Text.endsIn_eq_false (ht.name.not_mem (c := slash) rfl), Bool.false_eq_true,
      if_false, beq_self_eq_true, if_true]
  · obtain ⟨hne, ha⟩ := trimStart_inside ht
    have hend := Text.endsIn_trimStart ht.endsIn_inside
    have hname : (t.name == t.inside.trimStart) = false := beq_eq_false_iff_ne.mpr (Ne.symm hne)
    have hsplit : splitName (t.name ++ t.inside) = (t.name, t.inside.trimStart) := by
      rw [hi, splitName_space ht.name hc]
    rw [takeTag, hsplit]
    simp only [htext, hend, hname, ha, Bool.false_eq_true, if_false]

theorem takeTag_empty (r : Reading) :
    r.takeTag (t.name ++ (t.inside ++ [slash])) = r.addElement t.name t.assignments := by
  have htext : (t.name == Node.textName) = false := ne_textName (ht.name.not_mem rfl)
  rcases ht.inside_cases with hi | ⟨c, s, hi, hc⟩
  · have hplain : ∀ c ∈ t.name ++ [slash], c.isBlank = false := by
      intro c hc
      rcases List.mem_append.mp hc with hc | hc
      · exact isBlank_of_isPlain (ht.name.isPlain c hc)
      · rw [List.mem_singleton.mp hc]
        rfl
    have hslash : (t.name ++ [slash] == Node.textName) = false :=
      ne_textName (by simp [ht.name.not_mem (c := numberSign) rfl, numberSign, slash])
    have hend : Text.endsIn slash (t.name ++ [slash]) = true := by simp [Text.endsIn]
    rw [assignments_eq_nil ht hi, hi, List.nil_append, takeTag, splitName_plain hplain]
    simp only [hslash, hend, Bool.false_eq_true, if_false, if_true, List.dropLast_concat]
  · obtain ⟨hne, ha⟩ := trimStart_inside ht
    have hend : Text.endsIn slash (t.inside.trimStart ++ [slash]) = true := by simp [Text.endsIn]
    have hname : (t.name == t.inside.trimStart) = false := beq_eq_false_iff_ne.mpr (Ne.symm hne)
    have hsplit : splitName (t.name ++ (t.inside ++ [slash])) =
        (t.name, t.inside.trimStart ++ [slash]) := by
      rw [← Text.trimStart_concat (show slash.isBlank = false from rfl), hi]
      exact splitName_space ht.name hc _
    rw [takeTag, hsplit]
    simp only [htext, hend, hname, ha, Text.endsIn_eq_false (ht.name.not_mem (c := slash) rfl),
      List.dropLast_concat, Bool.false_eq_true, if_false, if_true]

omit ht in
theorem decodeAttributes_metered {raws : List (Text × Text)} {attributes : Attributes} {n : Nat}
    (h : StandFor raws attributes n) (before : Attributes)
    (hn : ((before ++ attributes).map Prod.fst).Nodup) (r : Reading) (hr : r.entities = [])
    (hx : r.expansion.count ≤ Expansion.maxCount) :
    Metered .excess (r.expansion.count + n) (r.decodeAttributes before raws)
      ({ r with expansion := r.expansion.charge n }, before ++ attributes) := by
  induction h generalizing before r with
  | nil =>
    rw [List.append_nil]
    exact .ok _ hx
  | @cons name raw s raws attributes m n hs _ ih =>
    -- A name that is new is set at the end, so the attributes keep their order.
    have hnew : name ∉ before.map Prod.fst := by
      rw [List.map_append, List.nodup_append] at hn
      exact fun hm ↦ hn.2.2 name hm name (List.mem_cons_self ..) rfl
    have hn' : (((before ++ [(name, s)]) ++ attributes).map Prod.fst).Nodup := by
      rwa [List.append_assoc, List.singleton_append]
    rw [decodeAttributes]
    refine (decode_metered hs r hr hx).bind (by omega) fun hm ↦ ?_
    have h := ih _ hn' { r with expansion := r.expansion.charge m } hr hm
    rw [Expansion.charge_charge, Expansion.count_charge, Nat.add_assoc, List.append_assoc,
      ← Attributes.set_eq_append hnew] at h
    simpa only [List.append_assoc, Attributes.set_eq_append hnew, List.singleton_append] using h

variable (f : Frame) (ancestors : List Frame) (count : Nat)

omit ht in
theorem addElement_metered {s : Text} (hs : ampersand ∉ s) {raws : List (Text × Text)}
    {attributes : Attributes} {n : Nat} (h : StandFor raws attributes n)
    (hn : (attributes.map Prod.fst).Nodup) (name : Text) (hx : count ≤ Expansion.maxCount) :
    Metered .excess (count + n) ((inside f ancestors s count).addElement name raws)
      (inside ((f.beforeTag s).push (Frame.close ⟨name, attributes, []⟩)) ancestors []
        (count + n)) := by
  obtain ⟨pending, hflush⟩ := flushBeforeTag_inside f ancestors count hs hx
  rw [addElement, hflush]
  refine (decodeAttributes_metered h [] hn (inside (f.beforeTag s) ancestors pending count)
    rfl hx).bind
    (Nat.le_refl _) fun hm ↦ ?_
  exact .ok _ hm

omit ht in
theorem openElement_metered {s : Text} (hs : ampersand ∉ s) {raws : List (Text × Text)}
    {attributes : Attributes} {n : Nat} (h : StandFor raws attributes n)
    (hn : (attributes.map Prod.fst).Nodup) (name : Text) (hd : ancestors.length ≤ Cursor.maxDepth)
    (hx : count ≤ Expansion.maxCount) :
    Metered .excess (count + n) ((inside f ancestors s count).openElement name raws)
      (inside ⟨name, attributes, []⟩ (f.beforeTag s :: ancestors) [] (count + n)) := by
  obtain ⟨pending, hflush⟩ := flushBeforeTag_inside f ancestors count hs hx
  have hopen : (inside f ancestors s count).openElement name raws =
      (inside (f.beforeTag s) ancestors pending count).decodeAttributes [] raws >>= fun p ↦
        .ok { p.1 with
          cursor := .within ⟨name, p.2, []⟩ (f.beforeTag s :: ancestors), pending := [] } := by
    rw [openElement, hflush]
    simp only [inside, bind, Except.bind, if_neg (Nat.not_lt.mpr hd)]
    rfl
  rw [hopen]
  refine (decodeAttributes_metered h [] hn (inside (f.beforeTag s) ancestors pending count)
    rfl hx).bind
    (Nat.le_refl _) fun hm ↦ ?_
  exact .ok _ hm

omit ht in
theorem takeMarkup_name {name : Text} (h : name.IsPlainName) (r : Reading) {rest inside next : Text}
    (ht : tag? (name ++ rest) = some (inside, next)) :
    r.takeMarkup (name ++ rest) = (r.takeTag inside).map fun r ↦ (r, next) := by
  have h₁ : Text.startsWith "/" (name ++ rest) = false :=
    h.startsWith_eq_false (c := slash) rfl [] rest
  have h₂ : Text.startsWith "?" (name ++ rest) = false :=
    h.startsWith_eq_false (c := question) rfl [] rest
  have h₃ : Text.startsWith "!--" (name ++ rest) = false :=
    h.startsWith_eq_false (c := exclamation) rfl "--" rest
  have h₄ : Text.startsWith "!D" (name ++ rest) = false :=
    h.startsWith_eq_false (c := exclamation) rfl "D" rest
  have h₅ : Text.startsWith "![" (name ++ rest) = false :=
    h.startsWith_eq_false (c := exclamation) rfl "[" rest
  simp only [takeMarkup, h₁, h₂, h₃, h₄, h₅, Bool.false_eq_true, if_false, ht]

theorem takeMarkup_empty (r : Reading) (rest : Text) :
    r.takeMarkup (t.name ++ (t.inside ++ [slash, greater]) ++ rest) =
      (r.addElement t.name t.assignments).map fun r ↦ (r, rest) := by
  have htext : t.name ++ (t.inside ++ [slash, greater]) ++ rest =
      t.name ++ (t.inside ++ slash :: greater :: rest) := by
    simp
  have hadd : r.takeTag (t.name ++ ((t.mapSpace blankTab).inside ++ [slash])) =
      r.addElement t.name t.assignments := by
    rw [← t.assignments_mapSpace blankTab]
    exact takeTag_empty (ht.mapSpace keepsSpace_blankTab) _
  rw [htext, takeMarkup_name ht.name _ (tag?_empty ht rest), hadd]

theorem takeMarkup_open (r : Reading) (rest : Text) :
    r.takeMarkup (t.name ++ (t.inside ++ [greater]) ++ rest) =
      (r.openElement t.name t.assignments).map fun r ↦ (r, rest) := by
  have htext : t.name ++ (t.inside ++ [greater]) ++ rest =
    t.name ++ (t.inside ++ greater :: rest) := by simp
  have hopen : r.takeTag (t.name ++ (t.mapSpace blankTab).inside) =
      r.openElement t.name t.assignments := by
    rw [← t.assignments_mapSpace blankTab]
    exact takeTag_open (ht.mapSpace keepsSpace_blankTab) _
  rw [htext, takeMarkup_name ht.name _ (tag?_open ht rest), hopen]

theorem leads_empty {s : Text} (hs : ampersand ∉ s) {attributes : Attributes} {n : Nat}
    (h : StandFor t.assignments attributes n) :
    (inside f ancestors s count).Leads t.emptyText
      (inside ((f.beforeTag s).push (.element t.name attributes [])) ancestors [] (count + n)) := by
  refine leads_of_takeMarkup (Nat.le_add_right _ _) fun hx rest ↦ ?_
  have hclose : Frame.close ⟨t.name, attributes, []⟩ = .element t.name attributes [] :=
    Frame.close_eq ht.name
  rw [takeMarkup_empty ht, ← hclose]
  exact (addElement_metered f ancestors count hs h (h.nodup ht) t.name hx).map fun r ↦ (r, rest)

theorem leads_open {s : Text} (hs : ampersand ∉ s) {attributes : Attributes} {n : Nat}
    (h : StandFor t.assignments attributes n) (hd : ancestors.length ≤ Cursor.maxDepth) :
    (inside f ancestors s count).Leads t.openText
      (inside ⟨t.name, attributes, []⟩ (f.beforeTag s :: ancestors) [] (count + n)) := by
  refine leads_of_takeMarkup (Nat.le_add_right _ _) fun hx rest ↦ ?_
  rw [takeMarkup_open ht]
  exact (openElement_metered f ancestors count hs h (h.nodup ht) t.name hd hx).map fun r ↦ (r, rest)

end Tags
end Reading
end AnalysisProject.Markup
