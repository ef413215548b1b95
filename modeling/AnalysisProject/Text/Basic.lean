namespace AnalysisProject

abbrev CodeUnit := UInt16

/-- A text by its UTF-16 code units, which lengths, columns and cuts count. A surrogate may stand
without its partner. -/
abbrev Text := List CodeUnit

namespace CodeUnit

abbrev tab : CodeUnit := 0x09
abbrev lineFeed : CodeUnit := 0x0A
abbrev carriageReturn : CodeUnit := 0x0D
abbrev space : CodeUnit := 0x20
abbrev exclamation : CodeUnit := 0x21
abbrev quote : CodeUnit := 0x22
abbrev numberSign : CodeUnit := 0x23
abbrev dollar : CodeUnit := 0x24
abbrev ampersand : CodeUnit := 0x26
abbrev apostrophe : CodeUnit := 0x27
abbrev plus : CodeUnit := 0x2B
abbrev hyphen : CodeUnit := 0x2D
abbrev slash : CodeUnit := 0x2F
abbrev semicolon : CodeUnit := 0x3B
abbrev less : CodeUnit := 0x3C
abbrev equal : CodeUnit := 0x3D
abbrev greater : CodeUnit := 0x3E
abbrev question : CodeUnit := 0x3F
abbrev bracket : CodeUnit := 0x5B
abbrev backslash : CodeUnit := 0x5C
abbrev grave : CodeUnit := 0x60
abbrev byteOrderMark : CodeUnit := 0xFEFF

def isDigit (c : CodeUnit) : Bool := 0x30 ≤ c && c ≤ 0x39

def isHexDigit (c : CodeUnit) : Bool := c.isDigit || 0x41 ≤ c && c ≤ 0x46 || 0x61 ≤ c && c ≤ 0x66

def isWord (c : CodeUnit) : Bool :=
  c.isDigit || 0x41 ≤ c && c ≤ 0x5A || 0x61 ≤ c && c ≤ 0x7A || c == 0x5F

def digitValue (c : CodeUnit) : Nat := c.toNat - 0x30

def isQuote (c : CodeUnit) : Bool := c == quote || c == apostrophe

def isHighSurrogate (c : CodeUnit) : Bool := 0xD800 ≤ c && c ≤ 0xDBFF

def isLowSurrogate (c : CodeUnit) : Bool := 0xDC00 ≤ c && c ≤ 0xDFFF

def lowerAscii (c : CodeUnit) : CodeUnit := if 0x41 ≤ c && c ≤ 0x5A then c + 0x20 else c

end CodeUnit

namespace Text

open CodeUnit

/-- What holds of the units of a text is decided unit by unit. -/
instance (priority := high) decidableForallMem (s : Text) (p : CodeUnit → Prop) [DecidablePred p] :
    Decidable (∀ c ∈ s, p c) := List.decidableBAll p s

def ofChar (c : Char) : Text :=
  if c.toNat < 0x10000 then [c.toNat.toUInt16]
  else [(0xD800 + (c.toNat - 0x10000) / 0x400).toUInt16,
    (0xDC00 + (c.toNat - 0x10000) % 0x400).toUInt16]

def ofString (s : String) : Text := s.toList.flatMap ofChar

instance : Coe String Text := ⟨ofString⟩

def pairChar (high low : CodeUnit) : Char :=
  Char.ofNat (0x10000 + (high.toNat - 0xD800) * 0x400 + (low.toNat - 0xDC00))

/-- The scalar values of a text; a surrogate without its partner becomes U+FFFD. -/
def toChars : Text → List Char
  | [] => []
  | [c] => if c.isHighSurrogate || c.isLowSurrogate then ['\ufffd'] else [Char.ofNat c.toNat]
  | c :: d :: s =>
    if c.isHighSurrogate && d.isLowSurrogate then pairChar c d :: toChars s
    else if c.isHighSurrogate || c.isLowSurrogate then '\ufffd' :: toChars (d :: s)
    else Char.ofNat c.toNat :: toChars (d :: s)

def toString (s : Text) : String := String.ofList s.toChars

def isWellFormed : Text → Bool
  | [] => true
  | [c] => !c.isHighSurrogate && !c.isLowSurrogate
  | c :: d :: s =>
    if c.isHighSurrogate && d.isLowSurrogate then isWellFormed s
    else !c.isHighSurrogate && !c.isLowSurrogate && isWellFormed (d :: s)

def decimal (n : Nat) : Text := (Nat.toDigits 10 n).flatMap ofChar

def join (parts : List Text) : Text := parts.flatten

def joinWith (separator : Text) (parts : List Text) : Text := (parts.intersperse separator).flatten

def lowerAscii (s : Text) : Text := s.map CodeUnit.lowerAscii

def startsWith (pattern s : Text) : Bool := pattern.isPrefixOf s

def endsIn (c : CodeUnit) (s : Text) : Bool := s.getLast? == some c

end Text
end AnalysisProject
