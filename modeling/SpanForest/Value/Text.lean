import SpanForest.Number.Numeral
import SpanForest.Number.Shortest
import SpanForest.Text.Quoted
import SpanForest.Value.Basic

/-!
Texts of values. A number has the fewest digits that read back; it is positional when the exponent of
its first digit is at least -4 and below 16. A string is its own text, and is quoted inside arrays and
objects.
-/

namespace SpanForest

namespace Binary64

open SpanForest.Numeral

def exponentText (e : Int) : List Char :=
  let shown := digits e.natAbs
  (if e < 0 then '-' else '+') :: (if shown.length < 2 then '0' :: shown else shown)

def zeroText (n : Int) : List Char := List.replicate n.toNat '0'

/-- Digits with a point after the first `point` of them. -/
def pointText (shown : List Char) (point : Int) : List Char :=
  if point ≤ 0 then '0' :: '.' :: zeroText (-point) ++ shown
  else if (shown.length : Int) ≤ point then shown ++ zeroText (point - shown.length) ++ ['.', '0']
  else shown.take point.toNat ++ '.' :: shown.drop point.toNat

def decimalText (d : Decimal) : List Char :=
  let shown := digits d.digits
  let point := d.exponent + shown.length
  if -4 < point ∧ point ≤ 16 then pointText shown point
  else
    let tail := shown.drop 1
    shown.take 1 ++ (if tail.isEmpty then [] else '.' :: tail) ++ 'e' :: exponentText (point - 1)

def magnitudeText (significand : Nat) (exponent : Int) : List Char :=
  if significand = 0 then ['0', '.', '0'] else decimalText (shortest significand exponent)

/-- The text of a number, given the texts of infinity and of no number. -/
def textWith (infinity undefined : String) : Binary64 → List Char
  | .nan => undefined.toList
  | .infinite negative => (if negative then ['-'] else []) ++ infinity.toList
  | .finite negative significand exponent =>
      (if negative then ['-'] else []) ++ magnitudeText significand exponent

def text (x : Binary64) : List Char := textWith "inf" "nan" x

end Binary64

namespace Value

open SpanForest.Text

def boolText (b : Bool) : List Char := if b then "True".toList else "False".toList

mutual

def quoted : Value → List Char
  | .null => "None".toList
  | .bool b => boolText b
  | .int n => Numeral.write n
  | .float x => x.text
  | .string s => quoteList s
  | .array items => '[' :: quotedItems items ++ [']']
  | .object members => '\x7b' :: quotedMembers members ++ ['\x7d']

def quotedItems : List Value → List Char
  | [] => []
  | [x] => quoted x
  | x :: y :: rest => quoted x ++ ", ".toList ++ quotedItems (y :: rest)

def quotedMembers : List (Text × Value) → List Char
  | [] => []
  | [(name, x)] => quoteList name ++ ": ".toList ++ quoted x
  | (name, x) :: y :: rest =>
      quoteList name ++ ": ".toList ++ quoted x ++ ", ".toList ++ quotedMembers (y :: rest)

end

def quotedText (v : Value) : String := String.ofList v.quoted

def text : Value → Text
  | .string s => s
  | v => ofChars v.quoted

theorem text_string (s : Text) : text (.string s) = s := rfl

end Value

end SpanForest
