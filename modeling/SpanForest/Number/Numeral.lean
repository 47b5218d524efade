import SpanForest.Text.Blank
import SpanForest.Text.DecimalDigit

/-!
Integers written in decimal: blanks, an optional sign, digits of any script, blanks. A single
underscore may stand between two digits. The information separators are not blanks here.
-/

namespace SpanForest.Numeral

open SpanForest.Text

def isPadding (c : Char) : Bool :=
  if c.toNat < 0x7f then c = ' ' || (decide (9 ≤ c.toNat) && decide (c.toNat ≤ 13)) else isBlank c

def readDigits (value : Nat) : List Char → Nat × List Char
  | [] => (value, [])
  | c :: rest =>
      match digitValue? c with
      | some d => readDigits (10 * value + d) rest
      | none =>
          match rest with
          | [] => (value, c :: rest)
          | c' :: rest' =>
              if c = '_' then
                match digitValue? c' with
                | some d => readDigits (10 * value + d) rest'
                | none => (value, c :: rest)
              else (value, c :: rest)

def readNatural? : List Char → Option (Nat × List Char)
  | [] => none
  | c :: rest => (digitValue? c).map fun d => readDigits d rest

def readSigned? : List Char → Option (Int × List Char)
  | '-' :: rest => (readNatural? rest).map fun r => (-(r.1 : Int), r.2)
  | '+' :: rest => (readNatural? rest).map fun r => ((r.1 : Int), r.2)
  | cs => (readNatural? cs).map fun r => ((r.1 : Int), r.2)

def readAll? (cs : List Char) : Option Int :=
  match readSigned? (cs.dropWhile isPadding) with
  | some (n, rest) => if rest.all isPadding then some n else none
  | none => none

def read? (t : Text) : Option Int := t.chars?.bind readAll?

def digits (n : Nat) : List Char := Nat.toDigits 10 n

def write : Int → List Char
  | .ofNat n => digits n
  | .negSucc n => '-' :: digits (n + 1)

end SpanForest.Numeral
