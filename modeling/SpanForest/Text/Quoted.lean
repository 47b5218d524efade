import SpanForest.Text.Basic
import SpanForest.Text.Hex
import SpanForest.Text.Printable

/-!
Quoted texts as messages show them. The quote is a single one, unless the text holds single quotes
and no double ones. The quote, the backslash and three controls have short escapes; other characters
that are not printable are written by their code point.
-/

namespace SpanForest.Text

def quoteFor (t : Text) : Char :=
  if .char '\'' ∈ t ∧ .char '"' ∉ t then '"' else '\''

def codeEscape (n : Nat) : List Char :=
  if n ≤ 0xff then '\\' :: 'x' :: hexDigits 2 n
  else if n ≤ 0xffff then '\\' :: 'u' :: hexDigits 4 n
  else '\\' :: 'U' :: hexDigits 8 n

def quoteChar (delimiter c : Char) : List Char :=
  if c = delimiter ∨ c = '\\' then ['\\', c]
  else if c = '\t' then ['\\', 't']
  else if c = '\n' then ['\\', 'n']
  else if c = '\r' then ['\\', 'r']
  else if isPrintable c then [c]
  else codeEscape c.toNat

def quotePoint (delimiter : Char) : CodePoint → List Char
  | .char c => quoteChar delimiter c
  | .half n => codeEscape (CodePoint.half n).toNat

def quoteList (t : Text) : List Char :=
  let delimiter := quoteFor t
  delimiter :: t.flatMap (quotePoint delimiter) ++ [delimiter]

def quote (t : Text) : String := String.ofList (quoteList t)

def escapePoint : CodePoint → List Char
  | .char c => [c]
  | .half n => codeEscape (CodePoint.half n).toNat

/-- A text whose halves of surrogate pairs are written by their codes. -/
def escaped (t : Text) : String := String.ofList (t.flatMap escapePoint)

def quoteBytes (bytes : List UInt8) : String :=
  let cs := bytes.map fun b => Char.ofNat b.toNat
  let delimiter := quoteFor (ofChars cs)
  let shown (c : Char) : List Char :=
    if 0x7f ≤ c.toNat then codeEscape c.toNat else quoteChar delimiter c
  String.ofList ('b' :: delimiter :: cs.flatMap shown ++ [delimiter])

end SpanForest.Text
