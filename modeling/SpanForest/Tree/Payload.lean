import SpanForest.Span.Quoted
import SpanForest.Tree.Drawing

/-!
What a node of a hand-made graph may hold: a span or a value that is no span. Only spans can be drawn.
-/

namespace SpanForest

inductive Payload where
  | plain (v : Value)
  | span (s : Span)

namespace Payload

def quoted : Payload → List Char
  | .plain v => v.quoted
  | .span s => s.quoted

def describe : Option Payload → Except Fault Text
  | none => Drawing.describe none
  | some (.span s) => Drawing.describe (some s)
  | some (.plain v) => .error (.noField v.kind "id")

end Payload

end SpanForest
