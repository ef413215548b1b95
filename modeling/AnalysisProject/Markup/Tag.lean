import AnalysisProject.Text.Blank
import AnalysisProject.Text.Search

namespace AnalysisProject.Markup

open CodeUnit

/-- The inside of a tag, the quote still open at its end, and the text from the closing `>` on. -/
structure TagSpan where
  inside : Text
  openQuote : Option CodeUnit
  rest : Text

namespace TagSpan

def push (c : CodeUnit) (t : TagSpan) : TagSpan := { t with inside := c :: t.inside }

end TagSpan

/-- Goes to the end of a tag. Units outside quotes are changed by `outside` on the way. -/
def spanTag (outside : CodeUnit → CodeUnit) : Option CodeUnit → Text → TagSpan
  | openQuote, [] => ⟨[], openQuote, []⟩
  | some q, c :: s => (spanTag outside (if c = q then none else some q) s).push c
  | none, c :: s =>
    if c = greater then ⟨[], none, c :: s⟩
    else if c.isQuote then (spanTag outside (some c) s).push c
    else (spanTag outside none s).push (outside c)

theorem length_spanTag (outside : CodeUnit → CodeUnit) (q : Option CodeUnit) (s : Text) :
    (spanTag outside q s).inside.length + (spanTag outside q s).rest.length = s.length := by
  fun_induction spanTag outside q s <;> simp_all [TagSpan.push] <;> omega

namespace Attribute

def isNameUnit (c : CodeUnit) : Bool := !c.isBlank && c != equal

def quoted? : Text → Option (Text × Text)
  | [] => none
  | c :: s => if c.isQuote then Text.splitFirst? [c] s else none

theorem length_quoted? {s value rest : Text} (h : quoted? s = some (value, rest)) :
    rest.length ≤ s.length := by
  cases s with
  | nil => simp [quoted?] at h
  | cons c s =>
    rw [quoted?] at h
    split at h
    · have := Text.length_splitFirst? h
      simp only [List.length_cons]
      omega
    · contradiction

/-- An attribute as it stands in a tag: where it begins, whether white space goes before it, its
name, whether an equals sign follows, and whether a quoted value does. -/
structure Mark where
  offset : Nat
  isSpaced : Bool
  name : Text
  hasEquals : Bool
  hasValue : Bool

def afterEquals? (s : Text) : Option Text :=
  if Text.startsWith "=" s.trimStart then some (s.trimStart.drop 1) else none

theorem length_afterEquals? {s rest : Text} (h : afterEquals? s = some rest) :
    rest.length ≤ s.length := by
  have := Text.length_trimStart_le s
  rw [afterEquals?] at h
  split at h
  · cases h
    rw [List.length_drop]
    omega
  · contradiction

def skipEquals (s : Text) : Text := (afterEquals? s).getD s

def skipValue (s : Text) : Text := ((quoted? s.trimStart).map Prod.snd).getD s

theorem length_skipEquals_le (s : Text) : (skipEquals s).length ≤ s.length := by
  rw [skipEquals]
  cases h : afterEquals? s with
  | none => simp
  | some rest => exact length_afterEquals? h

theorem length_skipValue_le (s : Text) : (skipValue s).length ≤ s.length := by
  rw [skipValue]
  cases h : quoted? s.trimStart with
  | none => simp
  | some p => exact Nat.le_trans (length_quoted? h) (Text.length_trimStart_le s)

def skipAssignment (s : Text) : Text := skipValue (skipEquals (s.dropWhile isNameUnit))

theorem length_skipAssignment_le (s : Text) : (skipAssignment s).length ≤ s.length :=
  Nat.le_trans (length_skipValue_le _)
    (Nat.le_trans (length_skipEquals_le _) (Text.length_dropWhile_le _ s))

def marks (offset : Nat) (s : Text) : List Mark :=
  match h : s.trimStart with
  | [] => []
  | c :: t =>
    have : t.length < s.length := Text.length_lt_of_dropWhile h
    if c = equal then marks (offset + (s.length - t.length)) t
    else
      have : (skipAssignment t).length ≤ t.length := length_skipAssignment_le t
      let rest := t.dropWhile isNameUnit
      { offset := offset + (s.length - (t.length + 1))
        isSpaced := t.length + 1 < s.length
        name := c :: t.takeWhile isNameUnit
        hasEquals := (afterEquals? rest).isSome
        hasValue := (quoted? (skipEquals rest).trimStart).isSome }
        :: marks (offset + (s.length - (skipAssignment t).length)) (skipAssignment t)
termination_by s.length

def assigned? (s : Text) : Option (Text × Text) := (afterEquals? s).bind fun t ↦ quoted? t.trimStart

theorem length_assigned? {s value rest : Text} (h : assigned? s = some (value, rest)) :
    rest.length ≤ s.length := by
  simp only [assigned?, Option.bind_eq_some_iff] at h
  obtain ⟨t, ht, hq⟩ := h
  have h₁ := length_afterEquals? ht
  have h₂ := length_quoted? hq
  have h₃ := Text.length_trimStart_le t
  omega

def assignments (s : Text) : List (Text × Text) :=
  match h : s.dropWhile (!isNameUnit ·) with
  | [] => []
  | c :: t =>
    have : t.length < s.length := Text.length_lt_of_dropWhile h
    have : (t.dropWhile isNameUnit).length ≤ t.length := Text.length_dropWhile_le _ t
    match ha : assigned? (t.dropWhile isNameUnit) with
    | some (value, next) =>
      have := length_assigned? ha
      (c :: t.takeWhile isNameUnit, value) :: assignments next
    | none => assignments (t.dropWhile isNameUnit)
termination_by s.length

end Attribute
end AnalysisProject.Markup
