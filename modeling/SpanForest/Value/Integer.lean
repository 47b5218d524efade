import SpanForest.Fault
import SpanForest.Number.Numeral

/-!
Values read as integers: truth values, numbers cut toward zero, and strings that are numerals.
-/

namespace SpanForest.Value

def toInteger : Value → Except Fault Int
  | .bool b => .ok (if b then 1 else 0)
  | .int n => .ok n
  | .float .nan => .error .undefinedNumber
  | .float (.infinite _) => .error .infiniteNumber
  | .float (.finite negative significand exponent) =>
      .ok (Binary64.truncate negative significand exponent)
  | .string s =>
      match Numeral.read? s with
      | some n => .ok n
      | none => .error (.badNumeral s)
  | v => .error (.notNumeric v.kind)

end SpanForest.Value
