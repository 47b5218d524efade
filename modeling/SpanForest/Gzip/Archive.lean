import SpanForest.Files.Source
import SpanForest.Gzip.Checksum
import SpanForest.Gzip.Inflate

/-!
Archives of one or more members, each a header, compressed data, and a trailer with the checksum and
the length of what that inflates to. Zero bytes may follow a member. An archive is taken in by
windows of a fixed size, and what one window gives is handed on as a piece, before the trailer is
looked at. A piece is limited too: when it is full, the next window starts at what was not yet taken
in. A flaw loses the piece in which it is met.
-/

namespace SpanForest.Gzip

def word16 (low high : UInt8) : Nat := low.toNat + 256 * high.toNat

def word32 (a b c d : UInt8) : Nat := word16 a b + 65536 * word16 c d

/-- The window of a piece by where it starts, and how much the piece holds. -/
structure Window where
  piece : Nat
  start : Nat
  size : Nat

namespace Window

def stop (w : Window) : Nat := w.start + ByteSource.pieceSize

/-- From a start on, the first window that reaches so far. -/
def reach (start need : Nat) : Nat :=
  start + ByteSource.pieceSize * ((need - start - 1) / ByteSource.pieceSize)

def isFull (w : Window) : Bool := w.size == ByteSource.pieceSize

/-- Where the window of the next byte starts. -/
def next (w : Window) (b : Produced) : Nat :=
  if w.isFull then reach (if b.need ≤ w.stop then b.held else w.stop) b.need
  else reach w.start b.need

def take (w : Window) (b : Produced) : Window :=
  if w.isFull || w.next b != w.start then ⟨w.piece + 1, w.next b, 1⟩
  else { w with size := w.size + 1 }

/-- Whether a flaw is met in this window. How far back a byte lies is not looked at before there is room
for it. -/
def meets (w : Window) (flaw : DataFlaw) (position : Nat) : Bool :=
  decide (position ≤ w.stop) && !(w.isFull && flaw == .tooFarBack)

end Window

abbrev Placed := List (Nat × UInt8)

/-- Places bytes, the first of which comes after the window `w`; also gives the window of the last. -/
def place (w : Window) : List Produced → Placed × Window
  | [] => ([], w)
  | b :: rest =>
      let taken := w.take b
      let (others, last) := place taken rest
      ((taken.piece, b.byte) :: others, last)

theorem map_snd_place (w : Window) (bytes : List Produced) :
    (place w bytes).1.map Prod.snd = bytes.map Produced.byte := by
  induction bytes generalizing w with
  | nil => rfl
  | cons b rest ih => simp [place, ih]

structure Inflation where
  data : Placed
  ending : Except FileFault (List UInt8)

def inflate (bytes : List UInt8) : Inflation :=
  let (outcome, p) := readData bytes
  let (data, last) := place ⟨0, 0, 0⟩ p.data.toList
  match outcome with
  | .ok _ => ⟨data, .ok p.align.rest⟩
  | .error .ended => ⟨data, .error .endedEarly⟩
  | .error (.flawed flaw position) =>
      ⟨if last.meets flaw position then data.filter fun b => b.1 ≠ last.piece else data,
        .error (.badData flaw)⟩

def gather : Placed → List (List UInt8)
  | [] => []
  | (piece, b) :: rest =>
      match rest, gather rest with
      | (next, _) :: _, bytes :: others =>
          if piece = next then (b :: bytes) :: others else [b] :: bytes :: others
      | _, others => [b] :: others

theorem flatten_gather (bytes : Placed) : (gather bytes).flatten = bytes.map Prod.snd := by
  induction bytes with
  | nil => rfl
  | cons entry rest ih =>
      unfold gather
      split
      · next heq =>
        rw [heq] at ih
        split
        · simpa using ih
        · simpa using ih
      · simpa using ih

theorem flatten_gather_inflate {bytes : List UInt8} {p : Progress}
    (h : readData bytes = (.ok (), p)) :
    (gather (inflate bytes).data).flatten = p.data.toList.map Produced.byte := by
  rw [flatten_gather, inflate, h]
  exact map_snd_place ⟨0, 0, 0⟩ p.data.toList

def afterZero (bytes : List UInt8) : List UInt8 := (bytes.dropWhile (· ≠ 0)).drop 1

def hasFlag (flags : UInt8) (bit : Nat) : Bool := flags.toNat / bit % 2 == 1

def passField (present : Bool) (length : Nat) (bytes : List UInt8) : Except FileFault (List UInt8) :=
  if !present then .ok bytes
  else if bytes.length < length then .error .endedEarly
  else .ok (bytes.drop length)

def passExtra (present : Bool) (bytes : List UInt8) : Except FileFault (List UInt8) :=
  if !present then .ok bytes
  else
    match bytes with
    | a :: b :: rest => passField true (word16 a b) rest
    | _ => .error .endedEarly

def passText (present : Bool) (bytes : List UInt8) : List UInt8 :=
  if present then afterZero bytes else bytes

def readHeader (bytes : List UInt8) : Except FileFault (Option (List UInt8)) :=
  match bytes with
  | [] => .ok none
  | 0x1f :: 0x8b :: rest =>
      match rest with
      | method :: flags :: _ :: _ :: _ :: _ :: _ :: _ :: rest =>
          if method ≠ 8 then .error .unknownMethod
          else do
            let rest ← passExtra (hasFlag flags 4) rest
            let rest := passText (hasFlag flags 8) rest
            let rest := passText (hasFlag flags 16) rest
            let rest ← passField (hasFlag flags 2) 2 rest
            pure (some rest)
      | _ => .error .endedEarly
  | start => .error (.notArchive (start.take 2))

def readTrailer (data bytes : List UInt8) : Except FileFault (List UInt8) :=
  match bytes with
  | a :: b :: c :: d :: e :: f :: g :: h :: rest =>
      if word32 a b c d ≠ checksum data then .error (.badChecksum (word32 a b c d) (checksum data))
      else if word32 e f g h ≠ data.length % 0x100000000 then .error .badLength
      else .ok (rest.dropWhile (· = 0))
  | _ => .error .endedEarly

/-- The data of the members, one after the other; the first argument bounds their number. -/
def unpackFrom : Nat → List UInt8 → ByteSource
  | 0, _ => ⟨[], none⟩
  | count + 1, bytes =>
      match readHeader bytes with
      | .error fault => .faulty fault
      | .ok none => ⟨[], none⟩
      | .ok (some body) =>
          let found := inflate body
          let pieces := gather found.data
          match found.ending with
          | .error fault => ⟨pieces, some fault⟩
          | .ok trailer =>
              match readTrailer (found.data.map Prod.snd) trailer with
              | .error fault => ⟨pieces, some fault⟩
              | .ok rest =>
                  let others := unpackFrom count rest
                  ⟨pieces ++ others.pieces, others.fault⟩

def unpack (bytes : List UInt8) : ByteSource := unpackFrom (bytes.length + 1) bytes

/-- Two bytes, and six that repeat them. -/
example : (unpack [0x1f, 0x8b, 8, 0, 0, 0, 0, 0, 0, 0xff, 0xcb, 0x48, 0xcc, 0x00, 0x43, 0x00, 0x66,
    0x3e, 0x0e, 0x2b, 8, 0, 0, 0]).pieces = ["hahahaha".toUTF8.toList] := by
  decide +kernel

end SpanForest.Gzip
