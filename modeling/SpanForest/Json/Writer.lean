import SpanForest.Text.Hex
import SpanForest.Value.Text

/-!
Writing JSON text without blanks, in ASCII. Characters outside the printable ASCII range are escaped,
those beyond U+FFFF by a surrogate pair, and half of a pair by its own code.
-/

namespace SpanForest.Json

open SpanForest.Text

def unitEscape (n : Nat) : List Char := '\\' :: 'u' :: hexDigits 4 n

def escapeChar (c : Char) : List Char :=
  if c = '"' then ['\\', '"']
  else if c = '\\' then ['\\', '\\']
  else if c = '\n' then ['\\', 'n']
  else if c = '\r' then ['\\', 'r']
  else if c = '\t' then ['\\', 't']
  else if c = '\x0c' then ['\\', 'f']
  else if c = '\x08' then ['\\', 'b']
  else if 0x20 ≤ c.toNat ∧ c.toNat ≤ 0x7e then [c]
  else if c.toNat ≤ 0xffff then unitEscape c.toNat
  else
    unitEscape (0xd800 + (c.toNat - 0x10000) / 0x400)
      ++ unitEscape (0xdc00 + (c.toNat - 0x10000) % 0x400)

def escapePoint : CodePoint → List Char
  | .char c => escapeChar c
  | .half n => unitEscape (CodePoint.half n).toNat

def writeString (s : Text) : List Char := '"' :: s.flatMap escapePoint ++ ['"']

def writeBool (b : Bool) : List Char := if b then "true".toList else "false".toList

mutual

def write : Value → List Char
  | .null => "null".toList
  | .bool b => writeBool b
  | .int n => Numeral.write n
  | .float x => x.textWith "Infinity" "NaN"
  | .string s => writeString s
  | .array items => '[' :: writeItems items ++ [']']
  | .object members => '\x7b' :: writeMembers members ++ ['\x7d']

def writeItems : List Value → List Char
  | [] => []
  | [x] => write x
  | x :: y :: rest => write x ++ ',' :: writeItems (y :: rest)

def writeMembers : List (Text × Value) → List Char
  | [] => []
  | [(name, x)] => writeString name ++ ':' :: write x
  | (name, x) :: y :: rest =>
      writeString name ++ ':' :: write x ++ ',' :: writeMembers (y :: rest)

end

end SpanForest.Json
