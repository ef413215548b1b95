import AnalysisProject.Number.Shortest

namespace AnalysisProject

/-- What JSON can write, and integers of any size and circles, which it cannot. -/
inductive Value
  | null
  | bool (b : Bool)
  | number (n : Number)
  | bigint (n : Int)
  | text (s : Text)
  | list (items : List Value)
  | record (fields : List (Text × Value))
  | undefined
  /-- Once more the list or record that the value stands in, or one that many further out. -/
  | enclosing (levels : Nat)
  deriving Inhabited

namespace Value

def field? (fields : List (Text × Value)) (name : Text) : Option Value := fields.lookup name

/-- The fields with one of them set; a new one comes last. -/
def setField (name : Text) (v : Value) : List (Text × Value) → List (Text × Value)
  | [] => [(name, v)]
  | (key, w) :: fields =>
    if key = name then (key, v) :: fields else (key, w) :: setField name v fields

def ofTexts (texts : List (Text × Text)) : List (Text × Value) :=
  texts.map fun (key, s) ↦ (key, text s)

def scalarText? : Value → Option Text
  | text s => some s
  | number n => some n.text
  | bool b => some (if b then "true" else "false")
  | _ => none

def plainText : Value → Text
  | undefined => "undefined"
  | v => v.scalarText?.getD "null"

end Value
end AnalysisProject
