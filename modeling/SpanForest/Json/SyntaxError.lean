/-!
Faults of JSON text and where they lie: lines and columns count from one, offsets from zero, all of
them in characters.
-/

namespace SpanForest.Json

inductive Problem where
  | byteOrderMark
  | expectingValue
  | expectingName
  | expectingColon
  | expectingComma
  | extraData
  | controlCharacter
  | unterminatedString
  | invalidEscape
  | invalidUnicodeEscape
  deriving DecidableEq

def Problem.label : Problem → String
  | .byteOrderMark => "Unexpected UTF-8 BOM (decode using utf-8-sig)"
  | .expectingValue => "Expecting value"
  | .expectingName => "Expecting property name enclosed in double quotes"
  | .expectingColon => "Expecting ':' delimiter"
  | .expectingComma => "Expecting ',' delimiter"
  | .extraData => "Extra data"
  | .controlCharacter => "Invalid control character at"
  | .unterminatedString => "Unterminated string starting at"
  | .invalidEscape => "Invalid \\escape"
  | .invalidUnicodeEscape => "Invalid \\uXXXX escape"

structure SyntaxError where
  problem : Problem
  line : Nat
  column : Nat
  offset : Nat
  deriving DecidableEq

def placeAfter (before : List Char) : Nat × Nat :=
  (1 + before.count '\n', 1 + (before.reverse.takeWhile (· ≠ '\n')).length)

def SyntaxError.locate (problem : Problem) (text rest : List Char) : SyntaxError :=
  let offset := text.length - rest.length
  let place := placeAfter (text.take offset)
  ⟨problem, place.1, place.2, offset⟩

def SyntaxError.message (e : SyntaxError) : String :=
  String.join
    [e.problem.label, ": line ", toString e.line, " column ", toString e.column, " (char ",
      toString e.offset, ")"]

end SpanForest.Json
