import AnalysisProject.Number.Basic
import AnalysisProject.Text.Basic

namespace AnalysisProject.Number

structure Decimal where
  coefficient : Nat
  exponent : Int
  deriving DecidableEq

namespace Decimal

def compareUnits (d : Decimal) (x : Nat) (e : Int) : Ordering :=
  compare (scale 2 (scale 10 d.coefficient d.exponent) (-e)) (scale 10 (scale 2 x e) (-d.exponent))

/-- Whether `d` is read as the number `m * 2 ^ e`. The interval of such values reaches half a unit
up, and half a unit down, or a quarter where the units below are half as large; its ends belong to
it if `m` is even. -/
def readsAs (d : Decimal) (m : Nat) (e : Int) : Bool :=
  let low := if m == scale 2 1 52 && -1074 < e then 4 * m - 1 else 4 * m - 2
  let above := d.compareUnits low (e - 2)
  let below := d.compareUnits (4 * m + 2) (e - 2)
  (above == .gt || above == .eq && m % 2 == 0) && (below == .lt || below == .eq && m % 2 == 0)

def normalize (d : Decimal) : Text × Int :=
  let digits := Text.decimal d.coefficient
  let kept := (digits.reverse.dropWhile (· == 0x30)).reverse
  (kept, d.exponent + (digits.length - kept.length : Nat))

/-- Plain digits for a point at most twenty-one places behind the first digit or five before it, and
otherwise one digit, a point, the other digits and an exponent. -/
def layout (d : Decimal) : Text :=
  let (digits, exponent) := d.normalize
  let point : Int := digits.length + exponent
  let zeros (n : Int) : Text := List.replicate n.toNat 0x30
  if 0 ≤ exponent && point ≤ 21 then digits ++ zeros exponent
  else if 0 < point && point ≤ 21 then digits.take point.toNat ++ "." ++ digits.drop point.toNat
  else if -6 < point && point ≤ 0 then "0." ++ zeros (-point) ++ digits
  else
    let fractional : Text := if digits.length ≤ 1 then [] else "." ++ digits.drop 1
    let sign : Text := if point ≤ 0 then "e-" else "e+"
    digits.take 1 ++ fractional ++ sign ++ Text.decimal (point - 1).natAbs

end Decimal

/-- How many digits `num / den` has before the point; negative or zero for a value below one tenth.
-/
def leadingPlaces (num den : Nat) : Int :=
  let n : Int := (Nat.toDigits 10 num).length - (Nat.toDigits 10 den).length
  if isBelowPower 10 num den n then n else n + 1

def neighbours (num den : Nat) (p : Int) : List Decimal :=
  let scaledNum := scale 10 num (-p)
  let scaledDen := scale 10 den p
  let c := scaledNum / scaledDen
  let nearer := roundHalfEven scaledNum scaledDen
  if nearer == c then [⟨c, p⟩, ⟨c + 1, p⟩] else [⟨c + 1, p⟩, ⟨c, p⟩]

/-- The shortest decimal that is read as the positive number `num / den`. Seventeen digits are
always enough. -/
def shortest (num den : Nat) : Decimal :=
  let e := unitExponent num den
  let m := scale 2 num (-e) / scale 2 den e
  let places := leadingPlaces num den
  let found := (List.range 17).findSome? fun (k : Nat) ↦
    (neighbours num den (places - (k + 1))).find? fun d ↦ d.coefficient != 0 && d.readsAs m e
  found.getD ⟨num, 0⟩

/-- The text of a natural number. Below `2 ^ 53` every integer is a number of its own, so all digits
count. -/
def natText (n : Nat) : Text := if n < scale 2 1 53 then Text.decimal n else (shortest n 1).layout

def text : Number → Text
  | integer n => if n < 0 then "-" ++ natText n.natAbs else natText n.natAbs
  | fraction negative num halvings =>
    (if negative then "-" else "" : Text) ++ (shortest num (scale 2 1 halvings)).layout
  | infinity negative => if negative then "-Infinity" else "Infinity"
  | nan => "NaN"

end AnalysisProject.Number
