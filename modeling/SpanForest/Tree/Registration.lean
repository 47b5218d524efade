import SpanForest.Diagnostic.Basic
import SpanForest.Fault

/-!
Registrations of values under ids. An id may be registered on two sides, plain and shared; the shared
side hangs from the plain one. A policy holds what is the same for all registrations of one trace.
-/

namespace SpanForest

/-- A place in the tree: an id and which of its two sides. -/
structure Key (I : Type) where
  id : I
  shared : Bool
  deriving BEq, ReflBEq, LawfulBEq

structure Registration (I V : Type) where
  parentId : Option I
  id : I
  shared : Bool
  value : V

def Registration.key {I V : Type} (r : Registration I V) : Key I := ⟨r.id, r.shared⟩

/-- The parent of a registration by its ids alone: a shared side hangs from its plain side. -/
def Registration.plainParent {I V : Type} (r : Registration I V) : Option (Key I) :=
  if r.shared then some ⟨r.id, false⟩ else r.parentId.map fun p => ⟨p, false⟩

/-- What a builder needs to know of its trace: how to merge two values under one key, whom to tell of
repairs, how messages show ids and values, and which ids cannot be keys. -/
structure Policy (I V : Type) where
  traceId : Value
  merge : V → V → Except Fault (Option V)
  sink : Sink
  label : I → Value
  quoteValue : V → List Char
  checkKey : I → Except Fault Unit := fun _ => .ok ()

namespace Policy

variable {I V : Type}

def selfParentMessage (p : Policy I V) (id : I) : Text :=
  Text.join
    ["skipping circular dependency: traceId=", p.traceId.text, ", spanId=", (p.label id).text]

def headlessMessage (p : Policy I V) (root id : I) : Text :=
  Text.join
    ["attributing span missing parent to root: traceId=", p.traceId.text, ", rootSpanId=",
      (p.label root).text, ", spanId=", (p.label id).text]

def noRootMessage (p : Policy I V) : Text :=
  Text.join ["substituting dummy node for missing root span: traceId=", p.traceId.text]

def keyText (p : Policy I V) (k : Key I) : String :=
  String.join ["Key(id=", (p.label k.id).quotedText, ", shared=", (Value.bool k.shared).quotedText, ")"]

end Policy

end SpanForest
