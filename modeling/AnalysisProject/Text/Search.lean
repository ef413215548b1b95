import AnalysisProject.Text.Basic

namespace AnalysisProject.Text

def splitFirst? (pattern : Text) : Text → Option (Text × Text)
  | [] => none
  | c :: s =>
    if startsWith pattern (c :: s) then some ([], (c :: s).drop pattern.length)
    else (splitFirst? pattern s).map fun (before, after) ↦ (c :: before, after)

def after? (pattern s : Text) : Option Text := (splitFirst? pattern s).map Prod.snd

def afterOrEnd (pattern s : Text) : Text := (after? pattern s).getD []

def occursIn (pattern s : Text) : Bool := (splitFirst? pattern s).isSome

def formAt? (forms : List Text) (s : Text) : Option Text := forms.find? (startsWith · s)

/-- Puts `value` in the place of each form; the first argument counts the units of a form that are
still to pass. -/
def replaceFrom (forms : List Text) (value : Text) : Nat → Text → Text
  | _, [] => []
  | n + 1, _ :: s => replaceFrom forms value n s
  | 0, c :: s =>
    match formAt? forms (c :: s) with
    | some form => value ++ replaceFrom forms value (form.length - 1) s
    | none => c :: replaceFrom forms value 0 s

def replaceAll (forms : List Text) (value : Text) (s : Text) : Text := replaceFrom forms value 0 s

def countFrom (forms : List Text) : Nat → Text → Nat
  | _, [] => 0
  | n + 1, _ :: s => countFrom forms n s
  | 0, c :: s =>
    match formAt? forms (c :: s) with
    | some form => countFrom forms (form.length - 1) s + 1
    | none => countFrom forms 0 s

def countAll (forms : List Text) (s : Text) : Nat := countFrom forms 0 s

theorem length_splitFirst? {pattern s before after : Text}
    (h : splitFirst? pattern s = some (before, after)) :
    before.length + after.length ≤ s.length := by
  induction s generalizing before with
  | nil => simp [splitFirst?] at h
  | cons c s ih =>
    rw [splitFirst?] at h
    split at h
    · simp only [Option.some.injEq, Prod.mk.injEq] at h
      obtain ⟨rfl, rfl⟩ := h
      simp only [List.length_nil, List.length_drop]
      omega
    · simp only [Option.map_eq_some_iff, Prod.exists, Prod.mk.injEq] at h
      obtain ⟨b, a, hs, rfl, rfl⟩ := h
      have := ih hs
      simp only [List.length_cons]
      omega

theorem length_after? {pattern s after : Text} (h : after? pattern s = some after) :
    after.length ≤ s.length := by
  simp only [after?, Option.map_eq_some_iff, Prod.exists, exists_eq_right] at h
  obtain ⟨before, hs⟩ := h
  have := length_splitFirst? hs
  omega

theorem length_afterOrEnd_le (pattern s : Text) : (afterOrEnd pattern s).length ≤ s.length := by
  rw [afterOrEnd]
  cases h : after? pattern s with
  | none => simp
  | some after => exact length_after? h

end AnalysisProject.Text
