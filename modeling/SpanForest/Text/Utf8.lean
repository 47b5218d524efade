import SpanForest.Text.Quoted

/-!
UTF-8. `next` reads one character, or says how many bytes are not part of one: the longest run that
could begin a character, or one byte that can begin none. Decoding with replacement turns each such
run into U+FFFD; strict decoding stops there. A text with half of a surrogate pair cannot be encoded.
-/

namespace SpanForest.Utf8

inductive Flaw where
  | badStart
  | badContinuation
  | unexpectedEnd
  deriving DecidableEq

def Flaw.label : Flaw → String
  | .badStart => "invalid start byte"
  | .badContinuation => "invalid continuation byte"
  | .unexpectedEnd => "unexpected end of data"

inductive Next where
  | char (c : Char) (length : Nat)
  | flaw (kind : Flaw) (length : Nat)

/-- How many continuation bytes a lead byte asks for, and the range of the first of them. -/
structure Lead where
  count : Nat
  low : UInt8
  high : UInt8

def lead? (b : UInt8) : Option Lead :=
  if 0xc2 ≤ b ∧ b ≤ 0xdf then some ⟨1, 0x80, 0xbf⟩
  else if b = 0xe0 then some ⟨2, 0xa0, 0xbf⟩
  else if b = 0xed then some ⟨2, 0x80, 0x9f⟩
  else if 0xe1 ≤ b ∧ b ≤ 0xef then some ⟨2, 0x80, 0xbf⟩
  else if b = 0xf0 then some ⟨3, 0x90, 0xbf⟩
  else if b = 0xf4 then some ⟨3, 0x80, 0x8f⟩
  else if 0xf1 ≤ b ∧ b ≤ 0xf3 then some ⟨3, 0x80, 0xbf⟩
  else none

def leadBits (b : UInt8) (count : Nat) : Nat :=
  if count = 1 then b.toNat % 32 else if count = 2 then b.toNat % 16 else b.toNat % 8

/-- Reads `count` more bytes of a character, the first of them within the given range. -/
def continueChar (code read : Nat) (low high : UInt8) : Nat → List UInt8 → Next
  | 0, _ => .char (Char.ofNat code) read
  | _ + 1, [] => .flaw .unexpectedEnd read
  | count + 1, b :: rest =>
      if low ≤ b ∧ b ≤ high then
        continueChar (64 * code + b.toNat % 64) (read + 1) 0x80 0xbf count rest
      else .flaw .badContinuation read

def next (b : UInt8) (rest : List UInt8) : Next :=
  if b < 0x80 then .char (Char.ofNat b.toNat) 1
  else
    match lead? b with
    | none => .flaw .badStart 1
    | some l => continueChar (leadBits b l.count) 1 l.low l.high l.count rest

def replacement : Char := '\ufffd'

def decodeFrom : Nat → List UInt8 → List Char
  | _, [] => []
  | skip + 1, _ :: rest => decodeFrom skip rest
  | 0, b :: rest =>
      match next b rest with
      | .char c length => c :: decodeFrom (length - 1) rest
      | .flaw _ length => replacement :: decodeFrom (length - 1) rest

def decode (bytes : List UInt8) : List Char := decodeFrom 0 bytes

/-- A flaw that stops strict decoding, at an offset within the bytes decoded together. -/
structure DecodeError where
  kind : Flaw
  first : UInt8
  offset : Nat
  length : Nat

def hexByte (b : UInt8) : String :=
  let shown := Nat.toDigits 16 b.toNat
  String.ofList (if shown.length < 2 then '0' :: shown else shown)

def DecodeError.message (e : DecodeError) : String :=
  let place :=
    if e.length = 1 then
      ["byte 0x", hexByte e.first, " in position ", toString e.offset]
    else ["bytes in position ", toString e.offset, "-", toString (e.offset + e.length - 1)]
  String.join ("'utf-8' codec can't decode " :: place ++ [": ", e.kind.label])

/-- Strict decoding of a piece: its characters and the bytes left over at its end, which may still
begin a character; or the flaw. -/
structure Piece where
  chars : List Char
  left : List UInt8

/-- A lead byte and one byte after it that would make a surrogate: at the end of a piece the two are
still taken to begin a character. -/
def isOpenSurrogate : List UInt8 → Bool
  | [b, b'] => b == 0xed && decide (0xa0 ≤ b') && decide (b' ≤ 0xbf)
  | _ => false

def decodePieceFrom (offset : Nat) : Nat → List UInt8 → Except DecodeError Piece
  | _, [] => .ok ⟨[], []⟩
  | skip + 1, _ :: rest => decodePieceFrom (offset + 1) skip rest
  | 0, b :: rest =>
      match next b rest with
      | .char c length => do
          let tail ← decodePieceFrom (offset + 1) (length - 1) rest
          pure ⟨c :: tail.chars, tail.left⟩
      | .flaw .unexpectedEnd _ => .ok ⟨[], b :: rest⟩
      | .flaw kind length =>
          if isOpenSurrogate (b :: rest) then .ok ⟨[], b :: rest⟩
          else .error ⟨kind, b, offset, length⟩

def decodePiece (bytes : List UInt8) : Except DecodeError Piece := decodePieceFrom 0 0 bytes

def endFlaw? : List UInt8 → Option DecodeError
  | [] => none
  | b :: rest =>
      match next b rest with
      | .flaw .badContinuation length => some ⟨.badContinuation, b, 0, length⟩
      | _ => some ⟨.unexpectedEnd, b, 0, rest.length + 1⟩

def byteOf (mark bits : Nat) : UInt8 := UInt8.ofNat (mark + bits)

def encodeChar (c : Char) : List UInt8 :=
  let n := c.toNat
  if n < 0x80 then [byteOf 0 n]
  else if n < 0x800 then [byteOf 0xc0 (n / 64), byteOf 0x80 (n % 64)]
  else if n < 0x10000 then
    [byteOf 0xe0 (n / 4096), byteOf 0x80 (n / 64 % 64), byteOf 0x80 (n % 64)]
  else
    [byteOf 0xf0 (n / 262144), byteOf 0x80 (n / 4096 % 64), byteOf 0x80 (n / 64 % 64),
      byteOf 0x80 (n % 64)]

def encode (cs : List Char) : List UInt8 := cs.flatMap encodeChar

/-- The halves of surrogate pairs that stop encoding, and their offset within the text. -/
structure EncodeError where
  offset : Nat
  halves : Text

def EncodeError.locate (t : Text) : EncodeError :=
  ⟨(t.takeWhile fun p => !p.isHalf).length,
    (t.dropWhile fun p => !p.isHalf).takeWhile CodePoint.isHalf⟩

def EncodeError.message (e : EncodeError) : String :=
  let place :=
    match e.halves with
    | [half] => ["character '", Text.escaped [half], "' in position ", toString e.offset]
    | halves =>
        ["characters in position ", toString e.offset, "-",
          toString (e.offset + halves.length - 1)]
  String.join ("'utf-8' codec can't encode " :: place ++ [": surrogates not allowed"])

def encodeText (t : Text) : Except EncodeError (List UInt8) :=
  match t.chars? with
  | some cs => .ok (encode cs)
  | none => .error (.locate t)

end SpanForest.Utf8
