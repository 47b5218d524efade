import SpanForest.Number.Quantity

/-!
Binary floating point numbers of 64 bits as exact values: a significand below 2^53 times a power of
two. A ratio is rounded to the nearest of them, a half to the even significand; what is too large
becomes an infinity and what is too small becomes zero. Nothing here is the machine's arithmetic.
-/

namespace SpanForest

inductive Binary64 where
  | nan
  | infinite (negative : Bool)
  | finite (negative : Bool) (significand : Nat) (exponent : Int)
  deriving DecidableEq

namespace Binary64

/-- 2^52: a significand from here on uses all bits. -/
def fullSignificand : Nat := Nat.pow 2 52

def significandBound : Nat := Nat.pow 2 53

def leastExponent : Int := -1074

def greatestExponent : Int := 971

def zero (negative : Bool) : Binary64 := .finite negative 0 leastExponent

/-- The nearest integer to a ratio, a half going to the even one. -/
def roundDiv (num den : Nat) : Nat :=
  let quotient := num / den
  let twice := 2 * (num % den)
  if twice < den then quotient
  else if den < twice then quotient + 1
  else quotient + quotient % 2

def inUnits (num den : Nat) (exponent : Int) : Nat × Nat :=
  (num * Nat.pow 2 (-exponent).toNat, den * Nat.pow 2 exponent.toNat)

def pack (negative : Bool) (significand : Nat) (exponent : Int) : Binary64 :=
  if greatestExponent < exponent then .infinite negative
  else .finite negative significand exponent

def ofRatio (negative : Bool) (num den : Nat) : Binary64 :=
  if num = 0 then zero negative
  else
    let low := max ((num.log2 : Int) - den.log2 - 53) leastExponent
    let units := inUnits num den low
    let exponent := if significandBound ≤ units.1 / units.2 then low + 1 else low
    let units := inUnits num den exponent
    let significand := roundDiv units.1 units.2
    if significand = significandBound then pack negative fullSignificand (exponent + 1)
    else pack negative significand exponent

def digitCount (n : Nat) : Nat := (Nat.toDigits 10 n).length

/-- The number nearest to digits · 10^exponent. Powers far outside the range are not formed. -/
def ofDecimal (negative : Bool) (digits : Nat) (exponent : Int) : Binary64 :=
  let top := exponent + digitCount digits
  if digits = 0 then zero negative
  else if 310 < top then .infinite negative
  else if top < -330 then zero negative
  else ofRatio negative (digits * Nat.pow 10 exponent.toNat) (Nat.pow 10 (-exponent).toNat)

def signed (negative : Bool) (n : Nat) : Int := if negative then -(n : Int) else n

def quantity : Binary64 → Quantity
  | .nan => .undefined
  | .infinite negative => .infinite negative
  | .finite negative significand exponent => .exact (signed negative significand) exponent

def isZero : Binary64 → Bool
  | .finite _ 0 _ => true
  | _ => false

def truncate (negative : Bool) (significand : Nat) (exponent : Int) : Int :=
  signed negative (significand * Nat.pow 2 exponent.toNat / Nat.pow 2 (-exponent).toNat)

end Binary64

end SpanForest
