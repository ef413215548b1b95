import AnalysisProject.Value.Basic

namespace AnalysisProject

open CodeUnit

namespace Json

def hexDigit (n : Nat) : CodeUnit := if n < 10 then (0x30 + n).toUInt16 else (0x57 + n).toUInt16

def hexEscape (c : CodeUnit) : Text :=
  let n := c.toNat
  [backslash, 0x75, hexDigit (n / 0x1000), hexDigit (n / 0x100 % 16), hexDigit (n / 16 % 16),
    hexDigit (n % 16)]

def escapeUnit (c : CodeUnit) : Text :=
  if c == quote || c == backslash then [backslash, c]
  else if c == 0x08 then [backslash, 0x62]
  else if c == 0x0C then [backslash, 0x66]
  else if c == lineFeed then [backslash, 0x6E]
  else if c == carriageReturn then [backslash, 0x72]
  else if c == tab then [backslash, 0x74]
  else if c < 0x20 then hexEscape c
  else [c]

def escape : Text → Text
  | [] => []
  | [c] => if c.isHighSurrogate || c.isLowSurrogate then hexEscape c else escapeUnit c
  | c :: d :: s =>
    if c.isHighSurrogate && d.isLowSurrogate then c :: d :: escape s
    else if c.isHighSurrogate || c.isLowSurrogate then hexEscape c ++ escape (d :: s)
    else escapeUnit c ++ escape (d :: s)

def string (s : Text) : Text := quote :: escape s ++ [quote]

/-- A number; JSON has no infinities and writes `null` for them. -/
def number : Number → Text
  | .infinity _ => "null"
  | .nan => "null"
  | n => n.text

def array (items : List Text) : Text := bracket :: Text.joinWith "," items ++ [0x5D]

def object (fields : List (Text × Text)) : Text :=
  0x7B :: Text.joinWith "," (fields.map fun (key, v) ↦ string key ++ [0x3A] ++ v) ++ [0x7D]

def texts (fields : List (Text × Text)) : Text := object (fields.map fun (key, s) ↦ (key, string s))

inductive Place
  | property (name : Text)
  | index (n : Nat)
  deriving DecidableEq

structure Enclosure where
  place : Place
  isList : Bool
  deriving DecidableEq

/-- Why a value has no JSON form: it holds an integer of any size, or one of the lists and records
that it is in. -/
inductive Unwritable
  | bigint
  | cycle (circle : List Enclosure) (closing : Place)
  deriving DecidableEq

def Place.text : Place → Text
  | property name => if name.isEmpty then "<anonymous>" else Text.join ["property '", name, "'"]
  | index n => "index " ++ Text.decimal n

def Enclosure.kind (e : Enclosure) : Text :=
  Text.join ["object with constructor '", if e.isList then "Array" else "Object", "'"]

namespace Unwritable

def startLine (e : Enclosure) : Text := "\n    --> starting at " ++ e.kind

def linkLine (e : Enclosure) : Text := Text.join ["\n    |     ", e.place.text, " -> ", e.kind]

/-- The lines about the way round. Of a long way, the first two steps and the last are named. -/
def linkLines (links : List Enclosure) : Text :=
  if links.length ≤ 3 then links.flatMap linkLine
  else
    Text.join [(links.take 2).flatMap linkLine, "\n    |     ...",
      (links.drop (links.length - 1)).flatMap linkLine]

def message : Unwritable → Text
  | bigint => "Do not know how to serialize a BigInt"
  | cycle circle closing =>
    Text.join ["Converting circular structure to JSON", (circle.take 1).flatMap startLine,
      linkLines (circle.drop 1), "\n    --- ", closing.text, " closes the circle"]

end Unwritable

end Json

namespace Value

open Json

mutual

/-- The JSON form of a value inside of lists and records, the innermost of them first. A value may
have none and be left out, or be what cannot be written. -/
def write (around : List Enclosure) (place : Place) : Value → Except Unwritable (Option Text)
  | null => .ok (some "null")
  | bool b => .ok (some (if b then "true" else "false"))
  | number n => .ok (some (Json.number n))
  | bigint _ => .error .bigint
  | text s => .ok (some (string s))
  | list items =>
    (writeItems (⟨place, true⟩ :: around) 0 items).map fun written ↦ some (array written)
  | record fields =>
    (writeFields (⟨place, false⟩ :: around) fields).map fun written ↦ some (object written)
  | undefined => .ok none
  | enclosing levels => .error (.cycle (around.take (levels + 1)).reverse place)

/-- The items of a list. One without a form leaves `null` behind, so that the others keep their
places. -/
def writeItems (around : List Enclosure) (n : Nat) : List Value → Except Unwritable (List Text)
  | [] => .ok []
  | v :: items => do
    let s ← write around (.index n) v
    let written ← writeItems around (n + 1) items
    return s.getD "null" :: written

def writeFields (around : List Enclosure) :
    List (Text × Value) → Except Unwritable (List (Text × Text))
  | [] => .ok []
  | (key, v) :: fields => do
    let s ← write around (.property key) v
    let written ← writeFields around fields
    return (s.map (key, ·)).toList ++ written

end

def json? (v : Value) : Option Text :=
  match v.write [] (.property "") with
  | .ok s => s
  | .error _ => none

def jsonRecord (fields : List (Text × Value)) : Except Unwritable Text :=
  (writeFields [⟨.property "", false⟩] fields).map object

end Value
end AnalysisProject
