import SpanForest.Value.Text

/-!
Diagnostics and where they go. A sink may fail on any call, depending on what it was offered before;
the failure is noted and goes no further. A delivery is the history of one sink: everything offered to
it, in order, and the failures.
-/

namespace SpanForest

abbrev Level := Int

def Level.debug : Level := 10

def Level.warning : Level := 30

structure Diagnostic where
  level : Level
  message : Text
  traceId : Value
  spanId : Value
  deriving DecidableEq

/-- A sink, by the calls on which it fails: the earlier diagnostics and the one it is offered. -/
structure Sink where
  fails : List Diagnostic → Diagnostic → Bool

namespace Sink

def quiet : Sink := ⟨fun _ _ => false⟩

def failing : Sink := ⟨fun _ _ => true⟩

end Sink

structure SinkFailure where
  traceId : Value
  deriving DecidableEq

namespace SinkFailure

def level (_ : SinkFailure) : Level := Level.warning

def message (f : SinkFailure) : String :=
  String.join ["Diagnostic sink failed for trace ", f.traceId.quotedText]

end SinkFailure

structure Delivery where
  offered : List Diagnostic
  failures : List SinkFailure
  deriving DecidableEq

namespace Delivery

def empty : Delivery := ⟨[], []⟩

def offer (sink : Sink) (d : Diagnostic) (history : Delivery) : Delivery :=
  ⟨history.offered ++ [d],
    if sink.fails history.offered d then history.failures ++ [⟨d.traceId⟩] else history.failures⟩

end Delivery

end SpanForest
