/-!
The 32 bit cyclic redundancy check with the reflected polynomial 0xEDB88320. A bit is taken in by one
shift, a byte by eight, and the register starts and ends inverted.
-/

namespace SpanForest.Gzip

def polynomial : UInt32 := 0xedb88320

def shiftBit (register : UInt32) : UInt32 :=
  if register &&& 1 = 1 then (register >>> 1) ^^^ polynomial else register >>> 1

def shiftBits : Nat → UInt32 → UInt32
  | 0, register => register
  | count + 1, register => shiftBits count (shiftBit register)

def takeByte (register : UInt32) (b : UInt8) : UInt32 :=
  shiftBits 8 (register ^^^ b.toUInt32)

def checksum (bytes : List UInt8) : Nat :=
  (bytes.foldl takeByte 0xffffffff ^^^ 0xffffffff).toNat

end SpanForest.Gzip
