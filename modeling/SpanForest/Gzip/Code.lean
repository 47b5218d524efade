import SpanForest.Files.Fault

/-!
Bits of compressed data and the prefix codes in them. Bits come from the lowest of a byte to the
highest, a number with its lowest bit first and a code with its highest. A code is canonical, so the
lengths of its words tell it: shorter words come first, and words of one length in the order of
their symbols.
-/

namespace SpanForest.Gzip

/-- A byte of the data, the number of bytes that tell it, and how many of them are taken in when it is
waited for. -/
structure Produced where
  byte : UInt8
  need : Nat
  held : Nat

/-- Where reading is: the bits read, the byte of the next bit and all bytes after it, and the data. -/
structure Progress where
  bits : Nat
  rest : List UInt8
  data : Array Produced

def Progress.start (bytes : List UInt8) : Progress := ⟨0, bytes, #[]⟩

def Progress.position (p : Progress) : Nat := (p.bits + 7) / 8

def Progress.bit (p : Progress) (b : UInt8) : Nat := b.toNat >>> (p.bits % 8) % 2

def Progress.advance (p : Progress) : Progress :=
  { p with bits := p.bits + 1, rest := if p.bits % 8 = 7 then p.rest.drop 1 else p.rest }

/-- Passes over what is left of a byte that was begun. -/
def Progress.align (p : Progress) : Progress :=
  if p.bits % 8 = 0 then p else { p with bits := 8 * p.position, rest := p.rest.drop 1 }

/-- Why reading ends before the data does. A flaw is found after so many bytes. -/
inductive Halt where
  | ended
  | flawed (flaw : DataFlaw) (position : Nat)

abbrev Inflating (α : Type) := ExceptT Halt (StateM Progress) α

def fail {α : Type} (flaw : DataFlaw) : Inflating α := do
  throw (.flawed flaw (← get).position)

def readBit : Inflating Nat := do
  let p ← get
  match p.rest with
  | [] => throw .ended
  | b :: _ =>
      set p.advance
      pure (p.bit b)

def readBits : Nat → Inflating Nat
  | 0 => pure 0
  | count + 1 => do
      let low ← readBit
      let high ← readBits count
      pure (low + 2 * high)

/-- A code by the numbers of its words of each length, from one on, and its symbols in order. -/
structure Code where
  counts : List Nat
  symbols : Array Nat

namespace Code

/-- The code in which each symbol has a word of this length, and none if the length is zero. -/
def ofLengths (lengths : List Nat) : Code :=
  let used := List.range (lengths.foldl max 0)
  ⟨used.map fun n => lengths.count (n + 1),
    (used.flatMap fun n => (lengths.zipIdx.filter fun entry => entry.1 = n + 1).map Prod.snd).toArray⟩

/-- How many more words of the greatest length there could be; negative if there are too many words. -/
def spare (c : Code) : Int := c.counts.foldl (fun spare (count : Nat) => 2 * spare - (count : Int)) 1

def isEmpty (c : Code) : Bool := c.counts.isEmpty

def isFull (c : Code) : Bool := c.isEmpty || c.spare = 0

/-- Whether data may use a code: it is full, or has one word only, which is a single bit. -/
def isUsable (c : Code) : Bool := c.isFull || decide (0 < c.spare) && c.counts.length == 1

/-- Reads on after a prefix; `first` is the number of the first word of its length. -/
def walk (symbols : Array Nat) (word first index : Nat) : List Nat → Inflating (Option Nat)
  | [] => pure none
  | count :: rest => do
      let word := 2 * word + (← readBit)
      let first := 2 * first
      if word < first + count then pure symbols[index + (word - first)]?
      else walk symbols word (first + count) (index + count) rest

def read (c : Code) : Inflating (Option Nat) :=
  if c.isEmpty then do
    let _ ← readBit
    pure none
  else walk c.symbols 0 0 0 c.counts

end Code

end SpanForest.Gzip
