import SpanForest.Files.Fault
import SpanForest.Text.Line

/-!
Bytes that arrive in pieces, until their end or a fault. Decoding goes piece by piece: a piece with a
flaw is lost as a whole, and bytes at its end that may begin a character wait for the next piece. What
was decoded before a fault still gives its ended lines, where a carriage return at the very end has
not yet ended one.
-/

namespace SpanForest

structure ByteSource where
  pieces : List (List UInt8)
  fault : Option FileFault

structure TextSource where
  text : List Char
  fault : Option FileFault

namespace ByteSource

def pieceSize : Nat := 8192

def cut : Nat → List UInt8 → List (List UInt8)
  | 0, _ => []
  | count + 1, bytes =>
      if bytes.isEmpty then []
      else bytes.take pieceSize :: cut count (bytes.drop pieceSize)

def ofBytes (bytes : List UInt8) : ByteSource := ⟨cut bytes.length bytes, none⟩

def faulty (fault : FileFault) : ByteSource := ⟨[], some fault⟩

def decodeFrom (atEnd : Option FileFault) (left : List UInt8) : List (List UInt8) → TextSource
  | [] =>
      match atEnd with
      | some fault => ⟨[], some fault⟩
      | none => ⟨[], (Utf8.endFlaw? left).map .undecodable⟩
  | piece :: rest =>
      match Utf8.decodePiece (left ++ piece) with
      | .error e => ⟨[], some (.undecodable e)⟩
      | .ok found =>
          let after := decodeFrom atEnd found.left rest
          ⟨found.chars ++ after.text, after.fault⟩

def decode (s : ByteSource) : TextSource := decodeFrom s.fault [] s.pieces

end ByteSource

namespace TextSource

/-- Without a carriage return that might still be the first half of a line end. -/
def settled (cs : List Char) : List Char :=
  match cs.reverse with
  | '\r' :: rest => rest.reverse
  | _ => cs

def lines (s : TextSource) : List (List Char) :=
  match s.fault with
  | none => Text.lines '\n' (Text.unify s.text)
  | some _ => (Text.endedLines '\n' (Text.unify (settled s.text))).1

end TextSource

end SpanForest
