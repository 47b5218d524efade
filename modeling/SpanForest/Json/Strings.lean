import SpanForest.Json.SyntaxError
import SpanForest.Text.Basic
import SpanForest.Text.Hex

/-!
Reading the strings of JSON text. Two escapes that make a surrogate pair are one character, and half of
a pair alone is kept as it is. A string that is not closed is reported at its opening quote, a bad
escape at its start.
-/

namespace SpanForest.Json

structure Stop where
  problem : Problem
  rest : List Char

abbrev Step (α : Type) := Except Stop (α × List Char)

def shortEscape? : Char → Option Char
  | '"' => some '"'
  | '\\' => some '\\'
  | '/' => some '/'
  | 'b' => some '\x08'
  | 'f' => some '\x0c'
  | 'n' => some '\n'
  | 'r' => some '\r'
  | 't' => some '\t'
  | _ => none

def isHighSurrogate (n : Nat) : Bool := decide (0xd800 ≤ n) && decide (n ≤ 0xdbff)

def isLowSurrogate (n : Nat) : Bool := decide (0xdc00 ≤ n) && decide (n ≤ 0xdfff)

def joinSurrogates (high low : Nat) : Nat := (high - 0xd800) * 0x400 + (low - 0xdc00) + 0x10000

/-- The code point of a code unit that is no part of a pair. -/
def pointOfUnit (n : Nat) : CodePoint :=
  if h : CodePoint.firstHalf ≤ n ∧ n - CodePoint.firstHalf < 0x800 then
    .half ⟨n - CodePoint.firstHalf, h.2⟩
  else .char (Char.ofNat n)

def readUnit (mark : List Char) (cs : List Char) : Except Stop Nat :=
  if (cs.drop 4).isEmpty then .error ⟨.invalidUnicodeEscape, mark⟩
  else
    match Text.readHex? (cs.take 4) with
    | some n => .ok n
    | none => .error ⟨.invalidUnicodeEscape, mark⟩

def readSecondUnit (cs : List Char) : Except Stop (Option Nat) :=
  match cs with
  | '\\' :: 'u' :: rest =>
      if (rest.drop 4).isEmpty then .ok none
      else
        match Text.readHex? (rest.take 4) with
        | some n => .ok (if isLowSurrogate n then some n else none)
        | none => .error ⟨.invalidUnicodeEscape, 'u' :: rest⟩
  | _ => .ok none

/-- The code point that an escape stands for and how many characters follow its u. -/
def readEscapedUnit (mark : List Char) (cs : List Char) : Except Stop (CodePoint × Nat) :=
  match readUnit mark cs with
  | .error stop => .error stop
  | .ok high =>
      if isHighSurrogate high then
        match readSecondUnit (cs.drop 4) with
        | .error stop => .error stop
        | .ok (some low) => .ok (.char (Char.ofNat (joinSurrogates high low)), 10)
        | .ok none => .ok (pointOfUnit high, 4)
      else .ok (pointOfUnit high, 4)

/-- The rest of a string whose opening quote starts `opening`; the first `skip` characters belong to
an escape already read. -/
def readChars (opening : List Char) : Nat → List Char → Step Text
  | _, [] => .error ⟨.unterminatedString, opening⟩
  | skip + 1, _ :: rest => readChars opening skip rest
  | 0, c :: rest =>
      if c = '"' then .ok ([], rest)
      else if c = '\\' then
        match rest with
        | [] => .error ⟨.unterminatedString, opening⟩
        | e :: after =>
            if e = 'u' then
              match readEscapedUnit rest after with
              | .error stop => .error stop
              | .ok (shown, length) =>
                  match readChars opening (length + 1) rest with
                  | .error stop => .error stop
                  | .ok (tail, left) => .ok (shown :: tail, left)
            else
              match shortEscape? e with
              | none => .error ⟨.invalidEscape, c :: rest⟩
              | some shown =>
                  match readChars opening 1 rest with
                  | .error stop => .error stop
                  | .ok (tail, left) => .ok (.char shown :: tail, left)
      else if c.toNat ≤ 0x1f then .error ⟨.controlCharacter, c :: rest⟩
      else
        match readChars opening 0 rest with
        | .error stop => .error stop
        | .ok (tail, left) => .ok (.char c :: tail, left)

end SpanForest.Json
