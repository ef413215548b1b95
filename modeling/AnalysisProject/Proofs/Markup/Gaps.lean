import AnalysisProject.Proofs.Markup.Construction
import AnalysisProject.Proofs.Markup.Layout

namespace AnalysisProject.Markup

open CodeUnit

/-- The same error, or results that are related. -/
inductive Parallel {ε α β : Type} (R : α → β → Prop) : Except ε α → Except ε β → Prop
  | ok {a : α} {b : β} : R a b → Parallel R (.ok a) (.ok b)
  | error (e : ε) : Parallel R (.error e) (.error e)

namespace Parallel

variable {ε α β γ δ : Type} {R : α → β → Prop} {S : γ → δ → Prop}

theorem map {e : Except ε α} {e' : Except ε β} (h : Parallel R e e') {f : α → γ} {f' : β → δ}
    (hf : ∀ a b, R a b → S (f a) (f' b)) : Parallel S (e.map f) (e'.map f') := by
  cases h with
  | ok h => exact .ok (hf _ _ h)
  | error e => exact .error e

theorem eq_error {e : Except ε α} {e' : Except ε β} (h : Parallel R e e') {x : ε}
    (he : e = .error x) : e' = .error x := by
  cases h with
  | ok _ => cases he
  | error y =>
    cases he
    rfl

theorem bind_self (e : Except ε γ) {f : γ → Except ε α} {f' : γ → Except ε β}
    (hf : ∀ c, Parallel R (f c) (f' c)) :
    Parallel R (e >>= f) (e >>= f') := by
  cases e with
  | error e => exact .error e
  | ok c => exact hf c

end Parallel

namespace Expansion

def read (x : Expansion) (s : Text) : Except ReadFailure (Expansion × Text) :=
  (x.decode [] s).mapError .expansion

def readAttributes (x : Expansion) (attributes : Attributes) :
    List (Text × Text) → Except ReadFailure (Expansion × Attributes)
  | [] => .ok (x, attributes)
  | (name, value) :: more =>
    x.read value >>= fun p ↦ readAttributes p.1 (attributes.set name p.2) more

theorem read_self (x : Expansion) {s : Text} (h : ampersand ∉ s) : x.read s = .ok (x, s) := by
  have hc : (!List.contains s ampersand) = true := by simpa using h
  rw [read, decode, if_pos hc]
  rfl

end Expansion

namespace Reading

def amid (f : Frame) (ancestors : List Frame) (pending : Text) (x : Expansion) : Reading :=
  ⟨.within f ancestors, pending, [], x⟩

section Steps

variable (f : Frame) (ancestors : List Frame) (x : Expansion)

theorem decode_amid (pending s : Text) :
    (amid f ancestors pending x).decode s = (x.read s).map fun p ↦
      (amid f ancestors pending p.1, p.2) := by
  rw [decode, Expansion.read]
  cases hd : x.decode [] s <;> simp only [amid, hd] <;> rfl

theorem flush_amid (s : Text) :
    (amid f ancestors s x).flush = (x.read s).map fun p ↦ amid (f.addText p.2) ancestors
    [] p.1 := by
  cases s with
  | nil => rfl
  | cons c s =>
    have hflush : (amid f ancestors (c :: s) x).flush =
        (amid f ancestors (c :: s) x).decode (c :: s) >>= fun p ↦
        .ok { p.1 with cursor := .within (f.addText p.2) ancestors, pending := [] } := rfl
    rw [hflush, decode_amid]
    cases x.read (c :: s) <;> rfl

theorem flushBeforeTag_amid {s : Text} (h : ampersand ∉ s) :
    ∃ pending, (amid f ancestors s x).flushBeforeTag =
      .ok (amid (f.beforeTag s) ancestors pending x) := by
  have hflush : (amid f ancestors s x).flush = .ok (amid (f.addText s) ancestors [] x) := by
    rw [flush_amid, x.read_self h]
    rfl
  have hbefore : (amid f ancestors s x).flushBeforeTag =
      if f.name == Frame.document.name then .ok (amid f ancestors s x)
      else (amid f ancestors s x).flush := rfl
  rw [hbefore, Frame.beforeTag]
  cases f.name == Frame.document.name with
  | true => exact ⟨s, rfl⟩
  | false => exact ⟨[], hflush⟩

theorem decodeAttributes_amid (pending : Text) (before : Attributes) (raws : List (Text × Text)) :
    (amid f ancestors pending x).decodeAttributes before raws =
      (x.readAttributes before raws).map fun p ↦ (amid f ancestors pending p.1, p.2) := by
  induction raws generalizing before x with
  | nil => rfl
  | cons raw raws ih =>
    obtain ⟨name, value⟩ := raw
    rw [decodeAttributes, decode_amid, Expansion.readAttributes]
    cases x.read value with
    | error e => rfl
    | ok p => exact ih p.1 _

theorem addElement_amid {s : Text} (h : ampersand ∉ s) (name : Text) (raws : List (Text × Text)) :
    (amid f ancestors s x).addElement name raws = (x.readAttributes [] raws).map fun p ↦
      amid ((f.beforeTag s).push (Frame.close ⟨name, p.2, []⟩)) ancestors [] p.1 := by
  obtain ⟨pending, hflush⟩ := flushBeforeTag_amid f ancestors x h
  rw [addElement, hflush]
  simp only [bind, Except.bind, decodeAttributes_amid]
  cases x.readAttributes [] raws <;> rfl

theorem openElement_amid {s : Text} (h : ampersand ∉ s) (name : Text) (raws : List (Text × Text)) :
    (amid f ancestors s x).openElement name raws =
      if Cursor.maxDepth < ancestors.length then .error .tooDeep
      else (x.readAttributes [] raws).map fun p ↦
        amid ⟨name, p.2, []⟩ (f.beforeTag s :: ancestors) [] p.1 := by
  obtain ⟨pending, hflush⟩ := flushBeforeTag_amid f ancestors x h
  by_cases hd : Cursor.maxDepth < ancestors.length
  · rw [openElement, hflush, if_pos hd]
    simp only [amid, bind, Except.bind, if_pos hd]
    rfl
  · have hopen : (amid f ancestors s x).openElement name raws =
        (amid (f.beforeTag s) ancestors pending x).decodeAttributes [] raws >>= fun p ↦
          .ok { p.1 with
            cursor := .within ⟨name, p.2, []⟩ (f.beforeTag s :: ancestors), pending := [] } := by
      rw [openElement, hflush]
      simp only [amid, bind, Except.bind, if_neg hd]
      rfl
    rw [hopen, decodeAttributes_amid, if_neg hd]
    cases x.readAttributes [] raws <;> rfl

theorem closeTag_amid (parent : Frame) (s : Text) :
    (amid f (parent :: ancestors) s x).closeTag =
      (x.read s).map fun p ↦ amid (parent.push (f.addText p.2).close) ancestors [] p.1 := by
  have hclose : (amid f (parent :: ancestors) s x).closeTag =
      (amid f (parent :: ancestors) s x).flush >>= fun r ↦
      .ok { r with cursor := r.cursor.leave, pending := [] } := rfl
  rw [hclose, flush_amid]
  cases x.read s <;> rfl

theorem run_text_amid {s : Text} (h : less ∉ s) (rest : Text) :
    (amid f ancestors [] x).run (s ++ rest) = (amid f ancestors s x).run rest := run_text _ h rest

theorem run_tag (r : Reading) (inside rest : Text) {e : Except ReadFailure Reading}
    (h : r.takeMarkup (inside ++ rest) = e.map fun r ↦ (r, rest)) :
    r.run (less :: inside ++ rest) = e >>= (·.run rest) := by
  rw [List.cons_append, run_less, h]
  cases e <;> rfl

theorem run_close (parent : Frame) (s : Text) {name space : Text} (hn : greater ∉ name)
    (hs : greater ∉ space) (rest : Text) :
    (amid f (parent :: ancestors) s x).run (WrittenTag.closeText name space ++ rest) =
      x.read s >>= fun p ↦
        (amid (parent.push (f.addText p.2).close) ancestors [] p.1).run rest := by
  rw [WrittenTag.closeText, run_tag _ _ _ (takeMarkup_close _ hn hs rest), closeTag_amid]
  cases x.read s <;> rfl

variable {t : WrittenTag} (ht : t.IsSound)

include ht

theorem run_empty {s : Text} (h : ampersand ∉ s) (rest : Text) :
    (amid f ancestors s x).run (t.emptyText ++ rest) = x.readAttributes [] t.assignments >>= fun p ↦
      (amid ((f.beforeTag s).push (Frame.close ⟨t.name, p.2, []⟩)) ancestors [] p.1).run rest := by
  rw [WrittenTag.emptyText, run_tag _ _ _ (takeMarkup_empty ht _ rest), addElement_amid _ _ _ h]
  cases x.readAttributes [] t.assignments <;> rfl

theorem run_open {s : Text} (h : ampersand ∉ s) (rest : Text) :
    (amid f ancestors s x).run (t.openText ++ rest) =
      if Cursor.maxDepth < ancestors.length then .error .tooDeep
      else x.readAttributes [] t.assignments >>= fun p ↦
        (amid ⟨t.name, p.2, []⟩ (f.beforeTag s :: ancestors) [] p.1).run rest := by
  rw [WrittenTag.openText, run_tag _ _ _ (takeMarkup_open ht _ rest), openElement_amid _ _ _ h]
  split
  · rfl
  · cases x.readAttributes [] t.assignments <;> rfl

end Steps

section Runs

variable {gap gap' : Nat → Text} {height : Nat} {R : Reading → Reading → Prop}

/-- Two readings go on alike, each in its own ancestors and through its own rest of a document. -/
def GoOnAlike (R : Reading → Reading → Prop) (ancestors ancestors' : List Frame)
    (rest rest' : Text) : Prop :=
  ∀ f f' x, Parallel R ((amid f ancestors [] x).run rest) ((amid f' ancestors' [] x).run rest')

theorem parallel_flatMap (hg : ∀ depth, ∀ c ∈ gap depth, c ≠ less ∧ c ≠ ampersand)
    (hg' : ∀ depth, ∀ c ∈ gap' depth, c ≠ less ∧ c ≠ ampersand) {children : List Node} (depth : Nat)
    {ancestors ancestors' : List Frame}
    (h : ∀ child ∈ children, ∀ {rest rest'}, GoOnAlike R ancestors ancestors' rest rest' →
      ∀ f f' x {s s' : Text},
      ampersand ∉ s → ampersand ∉ s' →
        Parallel R ((amid f ancestors s x).run (child.spell gap depth ++ rest))
          ((amid f' ancestors' s' x).run (child.spell gap' depth ++ rest')))
    {rest rest' : Text} (hrest : GoOnAlike R ancestors ancestors' rest rest') :
    GoOnAlike R ancestors ancestors'
      (children.flatMap (fun child ↦ gap depth ++ child.spell gap depth) ++ rest)
      (children.flatMap (fun child ↦ gap' depth ++ child.spell gap' depth) ++ rest') := by
  induction children with
  | nil => exact hrest
  | cons child children ih =>
    intro f f' x
    have hmore := ih fun child hm ↦ h child (List.mem_cons_of_mem _ hm)
    simp only [List.flatMap_cons, List.append_assoc]
    rw [run_text_amid _ _ _ fun hm ↦ (hg depth _ hm).1 rfl, run_text_amid _ _ _ fun hm ↦
      (hg' depth _ hm).1 rfl]
    exact h child (List.mem_cons_self ..) hmore f f' x (fun hm ↦ (hg depth _ hm).2 rfl) fun hm ↦
      (hg' depth _ hm).2 rfl

/-- Whether a node can be read, and what comes of it, does not depend on the gaps. -/
theorem parallel_spell (hg : ∀ depth, ∀ c ∈ gap depth, c ≠ less ∧ c ≠ ampersand)
    (hg' : ∀ depth, ∀ c ∈ gap' depth, c ≠ less ∧ c ≠ ampersand) {node : Node}
    (h : node.IsSound height) (depth : Nat) {ancestors ancestors' : List Frame}
    (hlength : ancestors.length = ancestors'.length) {rest rest' : Text}
    (hrest : GoOnAlike R ancestors ancestors' rest rest') (f f' : Frame) (x : Expansion)
    {s s' : Text} (hs : ampersand ∉ s) (hs' : ampersand ∉ s') :
    Parallel R ((amid f ancestors s x).run (node.spell gap depth ++ rest))
      ((amid f' ancestors' s' x).run (node.spell gap' depth ++ rest')) := by
  -- `s` and `s'` are the gaps before the node.
  induction h generalizing depth ancestors ancestors' rest rest' f f' x s s' with
  | @empty _ name attributes ht =>
    rw [Node.spell_empty, Node.spell_empty, run_empty _ _ _ ht.isSound hs,
      run_empty _ _ _ ht.isSound hs']
    exact .bind_self _ fun p ↦ hrest _ _ _
  | @text _ name attributes t ht ht' =>
    have hname : greater ∉ name := ht.not_mem (List.mem_cons_self ..) rfl
    have htext : less ∉ Reference.escape t := Reference.not_mem_escape rfl t
    simp only [Node.spell_text ht', List.append_assoc]
    rw [run_open _ _ _ ht.isSound hs, run_open _ _ _ ht.isSound hs', hlength]
    split
    · exact .error _
    · refine .bind_self _ fun p ↦ ?_
      rw [run_text_amid _ _ _ htext, run_text_amid _ _ _ htext,
        run_close _ _ _ _ _ hname List.not_mem_nil, run_close _ _ _ _ _ hname List.not_mem_nil]
      exact .bind_self _ fun p ↦ hrest _ _ _
  | @container height name attributes children ht hne hc ih =>
    have hname : greater ∉ name := ht.not_mem (List.mem_cons_self ..) rfl
    simp only [Node.spell_container hne hc, List.append_assoc]
    rw [run_open _ _ _ ht.isSound hs, run_open _ _ _ ht.isSound hs', hlength]
    split
    · exact .error _
    · refine .bind_self _ fun p ↦ parallel_flatMap hg hg' (depth + 1)
        (fun child hm rest rest' hrest f f' x s s' hs hs' ↦
          ih child hm (depth + 1) (congrArg (· + 1) hlength) hrest f f' x hs hs') ?_ _ _ _
      -- Behind the children stands the closing tag, with a gap before it.
      intro f f' x
      rw [run_text_amid _ _ _ fun hm ↦ (hg depth _ hm).1 rfl, run_text_amid _ _ _ fun hm ↦
        (hg' depth _ hm).1 rfl,
        run_close _ _ _ _ _ hname List.not_mem_nil, run_close _ _ _ _ _ hname List.not_mem_nil,
        x.read_self fun hm ↦ (hg depth _ hm).2 rfl, x.read_self fun hm ↦ (hg' depth _ hm).2 rfl]
      exact hrest _ _ _

end Runs

end Reading
end AnalysisProject.Markup
