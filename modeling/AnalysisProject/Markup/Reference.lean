import AnalysisProject.Text.Search

namespace AnalysisProject.Markup

open CodeUnit

namespace Reference

def written : List (CodeUnit × Text) :=
  [(ampersand, "&amp;"), (greater, "&gt;"), (less, "&lt;"), (apostrophe, "&apos;"),
    (quote, "&quot;")]

def replaceUnit (c : CodeUnit) (value : Text) (s : Text) : Text :=
  s.flatMap fun d ↦ if d = c then value else [d]

def escape (s : Text) : Text := written.foldl (fun s (c, reference) ↦ replaceUnit c reference s) s

/-- The references to the characters other than the ampersand, in the order in which they are
decoded. -/
def predefined : List (List Text × CodeUnit) :=
  [(["&apos;", "&#39;", "&#x27;"], apostrophe), (["&gt;", "&#62;", "&#x3E;"], greater),
    (["&lt;", "&#60;", "&#x3C;"], less), (["&quot;", "&#34;", "&#x22;"], quote)]

def ampersandForms : List Text := ["&amp;", "&#38;", "&#x26;"]

end Reference

abbrev Entities := List (Text × Text)

namespace Entities

/-- A later declaration of the same name replaces the value and keeps the place. -/
def declare (name value : Text) : Entities → Entities
  | [] => [(name, value)]
  | (key, v) :: entities =>
    if key = name then (key, value) :: entities else (key, v) :: declare name value entities

end Entities

/-- What has been put in for references so far: how often, and by how much texts have grown. -/
structure Expansion where
  count : Nat := 0
  growth : Int := 0

inductive ExpansionFailure
  | tooMany (count : Nat)
  | tooLong (growth : Int)
  deriving DecidableEq

namespace Expansion

def maxCount : Nat := 1000

def maxGrowth : Int := 100000

def tally (x : Expansion) (n : Nat) : Except ExpansionFailure Expansion :=
  if n = 0 then .ok x
  else if maxCount < x.count + n then .error (.tooMany (x.count + n))
  else .ok { x with count := x.count + n }

/-- The value of an entity at one place: `$$` stands for a dollar, and a dollar with a grave or an
apostrophe for the text before or after that place. -/
def instantiate (before after : Text) : Text → Text
  | c :: d :: s =>
    if c = dollar && d = dollar then dollar :: instantiate before after s
    else if c = dollar && d = grave then before ++ instantiate before after s
    else if c = dollar && d = apostrophe then after ++ instantiate before after s
    else c :: instantiate before after (d :: s)
  | s => s

/-- Puts the value of one entity in; `seen` is the text before, from its end, and the number counts
the units of a reference that are still to pass. -/
def putIn (reference value : Text) (seen : Text) : Nat → Text → Text
  | _, [] => []
  | n + 1, c :: s => putIn reference value (c :: seen) n s
  | 0, c :: s =>
    if Text.startsWith reference (c :: s) then
      instantiate seen.reverse ((c :: s).drop reference.length) value
        ++ putIn reference value (c :: seen) (reference.length - 1) s
    else c :: putIn reference value (c :: seen) 0 s

def decodeDeclared (x : Expansion) : Entities → Text → Except ExpansionFailure (Expansion × Text)
  | [], s => .ok (x, s)
  | (name, value) :: entities, s => do
    let reference := ampersand :: name ++ [semicolon]
    let n := Text.countAll [reference] s
    if n = 0 then decodeDeclared x entities s
    else
      let x ← x.tally n
      let t := putIn reference value [] 0 s
      let growth : Int := x.growth + ((t.length : Int) - s.length)
      if maxGrowth < growth then throw (.tooLong growth)
      decodeDeclared { x with growth } entities t

def decodePredefined (x : Expansion) :
    List (List Text × CodeUnit) → Text → Except ExpansionFailure (Expansion × Text)
  | [], s => .ok (x, s)
  | (forms, c) :: groups, s => do
    let x ← x.tally (Text.countAll forms s)
    decodePredefined x groups (Text.replaceAll forms [c] s)

/-- The text that a run of characters or an attribute value stands for. The values of the declared
entities are put in first, in the order of their declaration, and then the predefined characters,
the ampersand last, so that nothing is decoded twice. -/
def decode (x : Expansion) (entities : Entities) (s : Text) :
    Except ExpansionFailure (Expansion × Text) := do
  if !s.contains ampersand then return (x, s)
  let (x, s) ← x.decodeDeclared entities s
  if !s.contains ampersand then return (x, s)
  let (x, s) ← x.decodePredefined Reference.predefined s
  return (x, Text.replaceAll Reference.ampersandForms [ampersand] s)

end Expansion
end AnalysisProject.Markup
