import AnalysisProject.Text.Basic

namespace AnalysisProject

structure CaseMap where
  /-- Runs of characters with one counterpart: the first, the last, the step from one to the next,
  and the distance to the counterpart. -/
  runs : List (Nat × Nat × Nat × Int)
  expansions : List (Nat × List Nat)

def CaseMap.ofCode (m : CaseMap) (n : Nat) : List Nat :=
  match m.expansions.lookup n with
  | some counterpart => counterpart
  | none =>
    match m.runs.find? fun (first, last, step, _) ↦ first ≤ n && n ≤ last &&
        (n - first) % step == 0 with
    | some (_, _, _, distance) => [(n + distance).toNat]
    | none => [n]

namespace Text

def ofCodes (codes : List Nat) : Text := codes.flatMap fun n ↦ ofChar (Char.ofNat n)

/-- A text with its letters in the other case; a surrogate without its partner stays. -/
def mapCase (m : CaseMap) : Text → Text
  | [] => []
  | [c] => if c.isHighSurrogate || c.isLowSurrogate then [c] else ofCodes (m.ofCode c.toNat)
  | c :: d :: s =>
    if c.isHighSurrogate && d.isLowSurrogate then
      ofCodes (m.ofCode (pairChar c d).toNat) ++ mapCase m s
    else if c.isHighSurrogate || c.isLowSurrogate then c :: mapCase m (d :: s)
    else ofCodes (m.ofCode c.toNat) ++ mapCase m (d :: s)

end Text
end AnalysisProject
