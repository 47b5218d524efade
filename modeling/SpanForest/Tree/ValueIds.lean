import SpanForest.Tree.Builder
import SpanForest.Value.Key

/-!
Builders whose ids are values. The null value is a missing id.
-/

namespace SpanForest

namespace Value

def present? (v : Value) : Option Value := if v.isNull then none else some v

def firstPresent (v w : Value) : Value := if v.isNull then w else v

def key? (v : Value) : Option ValueKey := v.present?.map ValueKey.mk

end Value

/-- Registers a value under an id that may be any value. -/
def Builder.addValue {V : Type} (policy : Policy ValueKey V) (parentId id : Value) (shared : Bool)
    (value : Option V) : Building ValueKey V Bool :=
  add policy parentId.key? id.key? shared value

end SpanForest
