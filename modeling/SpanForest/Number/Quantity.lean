/-!
Exact numbers with two infinities and an undefined one. A finite quantity is a signed significand
times a power of two, so integers and binary floating point numbers compare without rounding. The
undefined quantity is below nothing, above nothing, and the same only as itself.
-/

namespace SpanForest

inductive Quantity where
  | undefined
  | infinite (negative : Bool)
  | exact (significand : Int) (exponent : Int)

namespace Quantity

def align (m e n f : Int) : Int × Int :=
  let low := min e f
  (m * Nat.pow 2 (e - low).toNat, n * Nat.pow 2 (f - low).toNat)

theorem align_self (m n e : Int) : align m e n e = (m, n) := by
  simp [align]

def lt : Quantity → Quantity → Bool
  | .undefined, _ => false
  | _, .undefined => false
  | .infinite negative, .infinite other => negative && !other
  | .infinite negative, .exact _ _ => negative
  | .exact _ _, .infinite negative => !negative
  | .exact m e, .exact n f => decide ((align m e n f).1 < (align m e n f).2)

def same : Quantity → Quantity → Bool
  | .undefined, .undefined => true
  | .infinite negative, .infinite other => negative == other
  | .exact m e, .exact n f => decide ((align m e n f).1 = (align m e n f).2)
  | _, _ => false

def ofInt (n : Int) : Quantity := .exact n 0

theorem lt_ofInt (m n : Int) : lt (ofInt m) (ofInt n) = decide (m < n) := by
  simp [lt, ofInt, align_self]

theorem same_ofInt (m n : Int) : same (ofInt m) (ofInt n) = decide (m = n) := by
  simp [same, ofInt, align_self]

end Quantity

end SpanForest
