import SpanForest.Fault

/-!
The order of values. Strings are ordered by code point, numbers by value, arrays by their first items
that are not the same. Other pairs have no order, and asking for it is a fault.
-/

namespace SpanForest.Value

def stringBefore (s t : Text) : Bool := decide (s < t)

mutual

def before : Value → Value → Except Fault Bool
  | .string s, .string t => .ok (stringBefore s t)
  | .array xs, .array ys => beforeItems xs ys
  | v, w =>
      match v.quantity?, w.quantity? with
      | some a, some b => .ok (a.lt b)
      | _, _ => .error (.unordered v.kind w.kind)

def beforeItems : List Value → List Value → Except Fault Bool
  | _, [] => .ok false
  | [], _ :: _ => .ok true
  | x :: xs, y :: ys => if same x y then beforeItems xs ys else before x y

end

theorem before_string (s t : Text) : before (.string s) (.string t) = .ok (decide (s < t)) := by
  simp [before, stringBefore]

theorem before_int (m n : Int) : before (.int m) (.int n) = .ok (decide (m < n)) := by
  simp [before, quantity?, Quantity.lt_ofInt]

end SpanForest.Value
