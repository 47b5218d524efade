import SpanForest.Number.Binary64
import SpanForest.Value.Basic

/-!
Reading the numbers of JSON text. A number without fraction and exponent is an exact integer, any other
is rounded to 64 bits. A fraction or an exponent without a digit is not part of the number.
-/

namespace SpanForest.Json

def isDigit (c : Char) : Bool := decide ('0' ≤ c) && decide (c ≤ '9')

def natOfDigits (cs : List Char) : Nat := cs.foldl (fun n c => 10 * n + (c.toNat - 48)) 0

def readFraction (cs : List Char) : List Char × List Char :=
  match cs with
  | '.' :: rest =>
      let shown := rest.takeWhile isDigit
      if shown.isEmpty then ([], cs) else (shown, rest.dropWhile isDigit)
  | _ => ([], cs)

def readSign (cs : List Char) : Bool × List Char :=
  match cs with
  | '-' :: rest => (true, rest)
  | '+' :: rest => (false, rest)
  | _ => (false, cs)

def readExponent (cs : List Char) : Option Int × List Char :=
  match cs with
  | e :: rest =>
      if e = 'e' || e = 'E' then
        let (negative, tail) := readSign rest
        let shown := tail.takeWhile isDigit
        if shown.isEmpty then (none, cs)
        else (some (Binary64.signed negative (natOfDigits shown)), tail.dropWhile isDigit)
      else (none, cs)
  | [] => (none, cs)

/-- The integer part: a zero, or digits that do not start with one. -/
def readWhole (cs : List Char) : Option (List Char × List Char) :=
  match cs with
  | c :: rest =>
      if c = '0' then some ([c], rest)
      else if isDigit c then some (cs.takeWhile isDigit, cs.dropWhile isDigit)
      else none
  | [] => none

def readUnsigned (negative : Bool) (cs : List Char) : Option (Value × List Char) :=
  match readWhole cs with
  | none => none
  | some (whole, rest) =>
      let (fraction, rest) := readFraction rest
      let (power, rest) := readExponent rest
      if fraction.isEmpty && power.isNone then
        some (.int (Binary64.signed negative (natOfDigits whole)), rest)
      else
        some (.float (Binary64.ofDecimal negative (natOfDigits (whole ++ fraction))
          (power.getD 0 - fraction.length)), rest)

def readNumber (cs : List Char) : Option (Value × List Char) :=
  match cs with
  | '-' :: rest => readUnsigned true rest
  | _ => readUnsigned false cs

end SpanForest.Json
