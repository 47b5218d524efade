import SpanForest.Gzip.Code

/-!
Inflating: blocks that hold their bytes as they are, or symbols under a code that is fixed or stands in
front of them. A symbol is a byte, the end of its block, or a length, which a distance follows: so many
bytes are repeated from so far back.
-/

namespace SpanForest.Gzip

def emit (b : UInt8) : Inflating Unit :=
  modify fun p => { p with data := p.data.push ⟨b, p.position, p.position⟩ }

/-- Repeats a byte from so far back, and then the next ones. -/
def repeatBytes (distance : Nat) : Nat → Inflating Unit
  | 0 => pure ()
  | count + 1 => do
      let p ← get
      emit ((p.data[p.data.size - distance]?).elim 0 Produced.byte)
      repeatBytes distance count

/-- A byte as it is. It is not taken in before it is wanted. -/
def copyByte : Inflating Unit := do
  match (← get).rest with
  | [] => throw .ended
  | b :: rest =>
      modify fun p => ⟨p.bits + 8, rest, p.data.push ⟨b, p.position + 1, p.position⟩⟩

def copyBytes : Nat → Inflating Unit
  | 0 => pure ()
  | count + 1 => do
      copyByte
      copyBytes count

def readStored : Inflating Unit := do
  modify Progress.align
  let length ← readBits 16
  let complement ← readBits 16
  if length + complement ≠ 0xffff then fail .storedLengths
  copyBytes length

/-- Least values, and the numbers of bits that add to them. -/
abbrev Scale := List (Nat × Nat)

def lengthScale : Scale :=
  [(3, 0), (4, 0), (5, 0), (6, 0), (7, 0), (8, 0), (9, 0), (10, 0), (11, 1), (13, 1), (15, 1), (17, 1),
    (19, 2), (23, 2), (27, 2), (31, 2), (35, 3), (43, 3), (51, 3), (59, 3), (67, 4), (83, 4), (99, 4),
    (115, 4), (131, 5), (163, 5), (195, 5), (227, 5), (258, 0)]

def distanceScale : Scale :=
  [(1, 0), (2, 0), (3, 0), (4, 0), (5, 1), (7, 1), (9, 2), (13, 2), (17, 3), (25, 3), (33, 4), (49, 4),
    (65, 5), (97, 5), (129, 6), (193, 6), (257, 7), (385, 7), (513, 8), (769, 8), (1025, 9), (1537, 9),
    (2049, 10), (3073, 10), (4097, 11), (6145, 11), (8193, 12), (12289, 12), (16385, 13), (24577, 13)]

/-- The value of a symbol, which is a flaw if it is beyond the scale. -/
def readValue (scale : Scale) (flaw : DataFlaw) (symbol : Option Nat) : Inflating Nat :=
  match symbol.bind fun n => scale[n]? with
  | none => fail flaw
  | some (least, count) => do
      let more ← readBits count
      pure (least + more)

def endSymbol : Nat := 256

def readRepeat (distances : Code) (symbol : Nat) : Inflating Unit := do
  let length ← readValue lengthScale .literalCode (some (symbol - endSymbol - 1))
  let distance ← readValue distanceScale .distanceCode (← distances.read)
  if (← get).data.size < distance then fail .tooFarBack
  repeatBytes distance length

def readSymbols (literals distances : Code) : Nat → Inflating Unit
  | 0 => throw .ended
  | count + 1 => do
      match ← literals.read with
      | none => fail .literalCode
      | some symbol =>
          if symbol = endSymbol then pure ()
          else do
            if symbol < endSymbol then emit (UInt8.ofNat symbol) else readRepeat distances symbol
            readSymbols literals distances count

structure Codes where
  literals : Code
  distances : Code

def fixedCodes : Codes :=
  ⟨.ofLengths (List.replicate 144 8 ++ List.replicate 112 9 ++ List.replicate 24 7
      ++ List.replicate 8 8),
    .ofLengths (List.replicate 32 5)⟩

def lengthOrder : List Nat := [16, 17, 18, 0, 8, 7, 9, 6, 10, 5, 11, 4, 12, 3, 13, 2, 14, 1, 15]

/-- What a symbol for a run of lengths stands for: a length, and how often it comes. -/
def readRun (lengths : Array Nat) (symbol : Nat) : Inflating (Nat × Nat) := do
  if symbol = 16 then
    let more ← readBits 2
    match lengths.back? with
    | none => fail .lengthRepeat
    | some length => pure (length, 3 + more)
  else if symbol = 17 then
    let more ← readBits 3
    pure (0, 3 + more)
  else
    let more ← readBits 7
    pure (0, 11 + more)

def readLengths (code : Code) (total : Nat) : Nat → Array Nat → Inflating (Array Nat)
  | 0, lengths => pure lengths
  | count + 1, lengths =>
      if total ≤ lengths.size then pure lengths
      else do
        -- under a code without words any bit reads as a zero
        let symbol := (← code.read).getD 0
        if symbol < 16 then readLengths code total count (lengths.push symbol)
        else
          let (length, times) ← readRun lengths symbol
          if total < lengths.size + times then fail .lengthRepeat
          else readLengths code total count (lengths ++ Array.replicate times length)

def readLengthCode (count : Nat) : Inflating Code := do
  let given ← (lengthOrder.take count).mapM fun symbol => (symbol, ·) <$> readBits 3
  let code := Code.ofLengths ((List.range lengthOrder.length).map fun n => (given.lookup n).getD 0)
  if code.isFull then pure code else fail .lengthCodes

def readCodes : Inflating Codes := do
  let literals := (← readBits 5) + 257
  let distances := (← readBits 5) + 1
  let count := (← readBits 4) + 4
  if 286 < literals ∨ 30 < distances then fail .tooManySymbols
  let code ← readLengthCode count
  let lengths ← readLengths code (literals + distances) (literals + distances) #[]
  if lengths[endSymbol]? = some 0 then fail .missingEnd
  let codes : Codes :=
    ⟨.ofLengths (lengths.toList.take literals), .ofLengths (lengths.toList.drop literals)⟩
  if !codes.literals.isUsable then fail .literalCodes
  if !codes.distances.isUsable then fail .distanceCodes
  pure codes

def readBlocks : Nat → Nat → Inflating Unit
  | 0, _ => throw .ended
  | count + 1, bound => do
      let last ← readBits 1
      match ← readBits 2 with
      | 0 => readStored
      | 1 => readSymbols fixedCodes.literals fixedCodes.distances bound
      | 2 => do
          let codes ← readCodes
          readSymbols codes.literals codes.distances bound
      | _ => fail .blockType
      if last = 0 then readBlocks count bound

/-- Every block and every symbol takes a bit. -/
def readData (bytes : List UInt8) : Except Halt Unit × Progress :=
  (readBlocks (8 * bytes.length) (8 * bytes.length)).run.run (.start bytes)

end SpanForest.Gzip
