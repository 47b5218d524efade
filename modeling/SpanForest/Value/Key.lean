import SpanForest.Fault

/-!
Values as keys. Numbers are told apart by value, so 1, 1.0 and true are one key; on strings this is
equality. Arrays and objects cannot be keys, and asking for one is a fault.
-/

namespace SpanForest

def Value.checkKey (v : Value) : Except Fault Unit :=
  if v.cannotKey then .error (.notAKey v.kind) else .ok ()

theorem Value.checkKey_string (s : Text) : Value.checkKey (.string s) = .ok () := rfl

structure ValueKey where
  value : Value

namespace ValueKey

instance : BEq ValueKey := ⟨fun k l => k.value.same l.value⟩

theorem beq_mk (v w : Value) : (ValueKey.mk v == ValueKey.mk w) = v.same w := rfl

theorem beq_string (s t : Text) :
    (ValueKey.mk (.string s) == ValueKey.mk (.string t)) = (s == t) := by
  rw [beq_mk, Value.same_string]

end ValueKey

end SpanForest
