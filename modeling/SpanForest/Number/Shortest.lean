import SpanForest.Number.Binary64

/-!
The shortest decimal digits that read back as a given number. The reals that round to it form an
interval, whose ends belong to it when the significand is even. For one digit, two digits and so on,
the two neighbours of the number on that decimal grid are tried; the first grid with a hit gives the
digits, and of two hits the nearer one, a tie going to the even digit. Seventeen digits always hit.
-/

namespace SpanForest

structure Decimal where
  digits : Nat
  exponent : Int
  deriving DecidableEq

namespace Shortest

/-- A number and the ends of its rounding interval, over one denominator. -/
structure Interval where
  value : Nat
  low : Nat
  high : Nat
  den : Nat
  closed : Bool

/-- The interval of significand · 2^exponent, in quarters of a unit of the last place. -/
def interval (significand : Nat) (exponent : Int) : Interval :=
  let up := Nat.pow 2 (exponent - 2).toNat
  let gap :=
    if significand = Binary64.fullSignificand ∧ Binary64.leastExponent < exponent then 1 else 2
  ⟨4 * significand * up, (4 * significand - gap) * up, (4 * significand + 2) * up,
    Nat.pow 2 (2 - exponent).toNat, significand % 2 == 0⟩

def Interval.has (i : Interval) (num den : Nat) : Bool :=
  if i.closed then decide (i.low * den ≤ num * i.den) && decide (num * i.den ≤ i.high * den)
  else decide (i.low * den < num * i.den) && decide (num * i.den < i.high * den)

/-- The number of the grid 10^place that lies in the interval next to its value. -/
def onGrid (i : Interval) (place : Int) : Option Decimal :=
  let num := Nat.pow 10 place.toNat
  let den := Nat.pow 10 (-place).toNat
  let below := i.value * den / (i.den * num)
  let twice := 2 * (i.value * den % (i.den * num))
  let nearer := if twice < i.den * num then below
    else if i.den * num < twice then below + 1
    else below + below % 2
  let other := if nearer = below then below + 1 else below
  if i.has (nearer * num) den then some ⟨nearer, place⟩
  else if i.has (other * num) den then some ⟨other, place⟩
  else none

/-- The exponent of the first digit: 10^e ≤ value < 10^(e+1). -/
def firstPlace (i : Interval) : Int :=
  let estimate := (((i.value.log2 : Int) - i.den.log2) * 30103).fdiv 100000
  let below (e : Int) : Bool :=
    decide (i.value * Nat.pow 10 (-e).toNat < i.den * Nat.pow 10 e.toNat)
  if below (estimate - 1) then estimate - 2
  else if below estimate then estimate - 1
  else if below (estimate + 1) then estimate
  else if below (estimate + 2) then estimate + 1
  else estimate + 2

def search (i : Interval) (place : Int) : Nat → Decimal
  | 0 => ⟨i.value * Nat.pow 10 (-place).toNat / (i.den * Nat.pow 10 place.toNat), place⟩
  | count + 1 =>
      match onGrid i place with
      | some d => d
      | none => search i (place - 1) count

def dropZeros : Nat → Decimal → Decimal
  | 0, d => d
  | count + 1, d =>
      if d.digits ≠ 0 ∧ d.digits % 10 = 0 then dropZeros count ⟨d.digits / 10, d.exponent + 1⟩
      else d

end Shortest

def shortest (significand : Nat) (exponent : Int) : Decimal :=
  let i := Shortest.interval significand exponent
  Shortest.dropZeros 20 (Shortest.search i (Shortest.firstPlace i) 17)

end SpanForest
