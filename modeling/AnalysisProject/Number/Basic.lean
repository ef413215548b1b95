namespace AnalysisProject

/-- A number in binary64. Both zeros are the integer zero. -/
inductive Number
  | integer (n : Int)
  /-- The value `± numerator / 2 ^ halvings`, with an odd numerator. -/
  | fraction (negative : Bool) (numerator halvings : Nat)
  | infinity (negative : Bool)
  | nan
  deriving DecidableEq

namespace Number

/-- The nearest integer to `num / den`, a half going to the even one. -/
def roundHalfEven (num den : Nat) : Nat :=
  let below := num / den
  let excess := 2 * (num % den)
  if den < excess || excess == den && below % 2 == 1 then below + 1 else below

/-- The value `n * base ^ e`, for an exponent that is not negative; any other one counts as zero. -/
def scale (base n : Nat) (e : Int) : Nat := n * Nat.pow base e.toNat

def isBelowPower (base num den : Nat) (e : Int) : Bool :=
  if 0 ≤ e then num < scale base den e else scale base num (-e) < den

/-- The exponent of the unit in the last place of binary64 at a positive value `num / den`. -/
def unitExponent (num den : Nat) : Int :=
  let e : Int := (Nat.log2 num : Int) - Nat.log2 den
  max ((if isBelowPower 2 num den e then e - 1 else e) - 52) (-1074)

def ofUnits (negative : Bool) (mantissa : Nat) : (exponent : Int) → Number
  | .ofNat e => integer (if negative then -(scale 2 mantissa e) else scale 2 mantissa e)
  | .negSucc k => reduce mantissa (k + 1)
where
  reduce (m : Nat) : Nat → Number
    | 0 => integer (if negative then -m else m)
    | k + 1 => if m % 2 == 0 then reduce (m / 2) k else fraction negative m (k + 1)

def nearest (negative : Bool) (num den : Nat) : Number :=
  if num = 0 then integer 0
  else
    let e := unitExponent num den
    let mantissa :=
      if 0 ≤ e then roundHalfEven num (scale 2 den e) else roundHalfEven (scale 2 num (-e)) den
    if 0 ≤ e && scale 2 1 1024 ≤ scale 2 mantissa e then infinity negative
    else ofUnits negative mantissa e

/-- The number nearest to `± mantissa * 10 ^ exponent`. Four hundred places before or behind the
point the answer no longer depends on the digits. -/
def ofDecimal (negative : Bool) (mantissa : Nat) (exponent : Int) : Number :=
  if mantissa = 0 then integer 0
  else
    let magnitude : Int := (Nat.toDigits 10 mantissa).length + exponent
    if 400 < magnitude then infinity negative
    else if magnitude < -400 then integer 0
    else if 0 ≤ exponent then nearest negative (scale 10 mantissa exponent) 1
    else nearest negative mantissa (scale 10 1 (-exponent))

end Number
end AnalysisProject
