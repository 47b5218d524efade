/-!
Membership of a character in a class given by ranges of code points. The ranges of a class are
data; this file holds only the test, so a statement over a class is a statement over its table.
-/

namespace SpanForest.Text

abbrev Ranges := List (Nat × Nat)

def Ranges.has (table : Ranges) (c : Char) : Bool :=
  table.any fun r => decide (r.1 ≤ c.toNat) && decide (c.toNat ≤ r.2)

end SpanForest.Text
