import AnalysisProject.Project.LineNumber
import AnalysisProject.Proofs.Text.Utf8
import AnalysisProject.Value.Json

namespace AnalysisProject

open CodeUnit

namespace Json

abbrev comma : CodeUnit := 0x2C
abbrev colon : CodeUnit := 0x3A
abbrev closeBracket : CodeUnit := 0x5D
abbrev brace : CodeUnit := 0x7B
abbrev closeBrace : CodeUnit := 0x7D

def accept (c : CodeUnit) (s : Text) : Option Text :=
  match s.dropWhile CodeUnit.isXmlSpace with
  | [] => none
  | d :: s => if d = c then some s else none

def hexValue (c : CodeUnit) : Nat :=
  if c.isDigit then c.digitValue else if c < 0x61 then c.toNat - 0x37 else c.toNat - 0x57

def hexUnit? (digits : Text) : Option CodeUnit :=
  if digits.all CodeUnit.isHexDigit then
    some (digits.foldl (fun n c ↦ 16 * n + hexValue c) 0).toUInt16 else none

def escaped? (c : CodeUnit) : Option CodeUnit :=
  if c = quote ∨ c = backslash ∨ c = slash then some c
  else if c = 0x62 then some 0x08
  else if c = 0x66 then some 0x0C
  else if c = 0x6E then some lineFeed
  else if c = 0x72 then some carriageReturn
  else if c = 0x74 then some tab
  else none

def readString : Text → Option (Text × Text)
  | [] => none
  | c :: s =>
    if c = quote then some ([], s)
    else if c < 0x20 then none
    else if c = backslash then
      match s with
      | [] => none
      | d :: s =>
        if d = 0x75 then
          match s with
          | d₁ :: d₂ :: d₃ :: d₄ :: s =>
            (hexUnit? [d₁, d₂, d₃, d₄]).bind fun u ↦ (readString s).map (.map (u :: ·) id)
          | _ => none
        else (escaped? d).bind fun u ↦ (readString s).map (.map (u :: ·) id)
    else (readString s).map (.map (c :: ·) id)

def readDigits (s : Text) : Option (Text × Text) :=
  if s.head?.any CodeUnit.isDigit then
    some (s.takeWhile CodeUnit.isDigit, s.dropWhile CodeUnit.isDigit) else none

/-- The digits in front of the point. A zero stands alone. -/
def readWhole (s : Text) : Option (Text × Text) :=
  if Text.startsWith "0" s then some (s.take 1, s.drop 1) else readDigits s

def readFraction (s : Text) : Option (Text × Text) :=
  if Text.startsWith "." s then readDigits (s.drop 1) else some ([], s)

def readExponent (s : Text) : Option (Int × Text) :=
  if Text.startsWith "e" s || Text.startsWith "E" s then
    (readDigits (Text.dropSign (s.drop 1))).map fun (digits, rest) ↦
      (if Text.startsWith "-" (s.drop 1) then -(Text.digitsValue digits : Int)
        else Text.digitsValue digits, rest)
  else some (0, s)

def readNumber (s : Text) : Option (Number × Text) := do
  let negative := Text.startsWith "-" s
  let (whole, s) ← readWhole (if negative then s.drop 1 else s)
  let (fraction, s) ← readFraction s
  let (exponent, s) ← readExponent s
  return (.ofDecimal negative (Text.digitsValue (whole ++ fraction)) (exponent - fraction.length),
    s)

def readScalar (s : Text) : Option (Value × Text) :=
  if Text.startsWith "null" s then some (.null, s.drop 4)
  else if Text.startsWith "true" s then some (.bool true, s.drop 4)
  else if Text.startsWith "false" s then some (.bool false, s.drop 5)
  else (readNumber s).map (.map .number id)

def distinct (fields : List (Text × Value)) : List (Text × Value) :=
  fields.foldl (fun fields field ↦ Value.setField field.1 field.2 fields) []

mutual

/-- The first value of a text, and what follows it. The fuel has to outnumber the units of the
value. -/
def readValue : Nat → Text → Option (Value × Text)
  | 0, _ => none
  | fuel + 1, s =>
    match accept quote s with
    | some s => (readString s).map (.map .text id)
    | none =>
      match accept bracket s with
      | some s =>
        match accept closeBracket s with
        | some rest => some (.list [], rest)
        | none => (readItems fuel s).map (.map .list id)
      | none =>
        match accept brace s with
        | some s =>
          match accept closeBrace s with
          | some rest => some (.record [], rest)
          | none => (readFields fuel s).map (.map (.record ∘ distinct) id)
        | none => readScalar (s.dropWhile CodeUnit.isXmlSpace)

def readItems : Nat → Text → Option (List Value × Text)
  | 0, _ => none
  | fuel + 1, s => do
    let (v, s) ← readValue fuel s
    match accept comma s with
    | some s => (readItems fuel s).map (.map (v :: ·) id)
    | none => (accept closeBracket s).map ([v], ·)

def readFields : Nat → Text → Option (List (Text × Value) × Text)
  | 0, _ => none
  | fuel + 1, s => do
    let s ← accept quote s
    let (key, s) ← readString s
    let s ← accept colon s
    let (v, s) ← readValue fuel s
    match accept comma s with
    | some s => (readFields fuel s).map (.map ((key, v) :: ·) id)
    | none => (accept closeBrace s).map ([(key, v)], ·)

end

def read (s : Text) : Option Value :=
  match readValue (s.length + 1) s with
  | some (v, rest) => if rest.all CodeUnit.isXmlSpace then some v else none
  | none => none

theorem readString_quote (s : Text) : readString (quote :: s) = some ([], s) := by
  rw [readString.eq_def]
  exact if_pos rfl

theorem readString_plain {c : CodeUnit} (hquote : c ≠ quote) (hlow : ¬ c < 0x20)
    (hback : c ≠ backslash) (s : Text) :
    readString (c :: s) = (readString s).map (.map (c :: ·) id) := by
  rw [readString.eq_def]
  simp only [hquote, hlow, hback, if_false]

theorem readString_escaped {d u : CodeUnit} (hd : d ≠ 0x75) (h : escaped? d = some u) (s : Text) :
    readString (backslash :: d :: s) = (readString s).map (.map (u :: ·) id) := by
  have hquote : backslash ≠ quote := by decide
  have hlow : ¬ backslash < 0x20 := by decide
  rw [readString.eq_def]
  simp only [hquote, hlow, hd, h, if_false, if_true, Option.bind_some]

theorem isHexDigit_hexDigit : ∀ n < 16, (hexDigit n).isHexDigit = true ∧ hexValue (hexDigit n) =
    n := by decide

theorem hexUnit?_hexDigits (c : CodeUnit) :
    hexUnit? [hexDigit (c.toNat / 0x1000), hexDigit (c.toNat / 0x100 % 16),
      hexDigit (c.toNat / 16 % 16), hexDigit (c.toNat % 16)] = some c := by
  have hlt := c.toNat_lt
  obtain ⟨h₁, v₁⟩ := isHexDigit_hexDigit (c.toNat / 0x1000) (by omega)
  obtain ⟨h₂, v₂⟩ := isHexDigit_hexDigit (c.toNat / 0x100 % 16) (by omega)
  obtain ⟨h₃, v₃⟩ := isHexDigit_hexDigit (c.toNat / 16 % 16) (by omega)
  obtain ⟨h₄, v₄⟩ := isHexDigit_hexDigit (c.toNat % 16) (by omega)
  have hall : 16 * (16 * (16 * (16 * 0 + c.toNat / 0x1000) + c.toNat / 0x100 % 16) +
    c.toNat / 16 % 16) + c.toNat % 16 =
      c.toNat := by omega
  simp only [hexUnit?, List.all_cons, List.all_nil, h₁, h₂, h₃, h₄, List.foldl_cons, List.foldl_nil,
    v₁, v₂, v₃, v₄, hall]
  exact congrArg some UInt16.ofNat_toNat

theorem readString_hexEscape (c : CodeUnit) (s : Text) :
    readString (hexEscape c ++ s) = (readString s).map (.map (c :: ·) id) := by
  have hquote : backslash ≠ quote := by decide
  have hlow : ¬ backslash < 0x20 := by decide
  simp only [hexEscape, List.cons_append, List.nil_append]
  rw [readString.eq_def]
  simp only [hquote, hlow, hexUnit?_hexDigits, if_false, if_true, Option.bind_some]

theorem escapeUnit_cases (c : CodeUnit) :
    (∃ d, d ≠ 0x75 ∧ 0x20 ≤ d ∧ escaped? d = some c ∧ escapeUnit c = [backslash, d]) ∨
      escapeUnit c = hexEscape c ∨ (c ≠ quote ∧ c ≠ backslash ∧ 0x20 ≤ c ∧ escapeUnit c = [c]) := by
  have hshort {d : CodeUnit} (hd : d ≠ 0x75 ∧ 0x20 ≤ d ∧ escaped? d = some c)
      (he : escapeUnit c = [backslash, d]) :
      ∃ d, d ≠ 0x75 ∧ 0x20 ≤ d ∧ escaped? d = some c ∧ escapeUnit c = [backslash, d] :=
    ⟨d, hd.1, hd.2.1, hd.2.2, he⟩
  by_cases hself : c = quote ∨ c = backslash
  · rcases hself with rfl | rfl <;> exact .inl (hshort (by decide) rfl)
  · by_cases hletter : c = 0x08 ∨ c = 0x0C ∨ c = lineFeed ∨ c = carriageReturn ∨ c = tab
    · rcases hletter with rfl | rfl | rfl | rfl | rfl <;> exact .inl (hshort (by decide) rfl)
    · simp only [not_or] at hself hletter
      by_cases hlow : c < 0x20
      · simp [escapeUnit, hself, hletter, hlow]
      · have hle : 0x20 ≤ c := UInt16.not_lt.mp hlow
        simp [escapeUnit, hself, hletter, hlow, hle]

theorem readString_escapeUnit (c : CodeUnit) (s : Text) :
    readString (escapeUnit c ++ s) = (readString s).map (.map (c :: ·) id) := by
  rcases escapeUnit_cases c with ⟨d, hd, -, hescaped, he⟩ | he | ⟨hquote, hback, hle, he⟩
  · rw [he]
    exact readString_escaped hd hescaped s
  · rw [he]
    exact readString_hexEscape c s
  · rw [he]
    exact readString_plain hquote (UInt16.not_lt.mpr hle) hback s

theorem readString_surrogate {c : CodeUnit} (h : c.isHighSurrogate = true ∨ c.isLowSurrogate = true)
    (s : Text) :
    readString (c :: s) = (readString s).map (.map (c :: ·) id) := by
  have hle : 0xD800 ≤ c.toNat := by
    rw [isHighSurrogate_iff, isLowSurrogate_iff] at h
    omega
  apply readString_plain <;> simp only [quote, backslash, ne_eq, ← UInt16.toNat_inj,
    UInt16.lt_iff_toNat_lt, UInt16.reduceToNat] <;> omega

/-- Between quotes every text is read back, also where a surrogate has lost its partner. -/
theorem readString_escape (s rest : Text) :
    readString (escape s ++ quote :: rest) = some (s, rest) := by
  induction s using escape.induct with
  | case1 => exact readString_quote rest
  | case2 c h =>
    rw [escape, if_pos h, readString_hexEscape, readString_quote]
    rfl
  | case3 c h =>
    rw [escape, if_neg h, readString_escapeUnit, readString_quote]
    rfl
  | case4 c d s h ih =>
    obtain ⟨hc, hd⟩ := Bool.and_eq_true_iff.mp h
    rw [escape, if_pos h, List.cons_append, List.cons_append, readString_surrogate (.inl hc),
      readString_surrogate (.inr hd), ih]
    rfl
  | case5 c d s h hs ih =>
    rw [escape, if_neg h, if_pos hs, List.append_assoc, readString_hexEscape, ih]
    rfl
  | case6 c d s h hs ih =>
    rw [escape, if_neg h, if_neg hs, List.append_assoc, readString_escapeUnit, ih]
    rfl

end Json
end AnalysisProject
