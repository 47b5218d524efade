import SpanForest.Span.Quoted
import SpanForest.Trace.Repair
import SpanForest.Tree.Drawing
import SpanForest.Tree.Traversal
import SpanForest.Tree.ValueIds

/-!
The span tree of one trace. The trace is repaired first, if asked for; then every span is registered
under its id, and spans under one key are combined. Which spans make a trace is left to the caller.
-/

namespace SpanForest

namespace Trace

def policy (sink : Sink) (traceId : Value) : Policy ValueKey Span where
  traceId := traceId
  merge := fun s t => (s.combine t).map some
  sink := sink
  label := ValueKey.value
  quoteValue := Span.quoted
  checkKey := fun k => k.value.checkKey

abbrev Assembling (α : Type) := Building ValueKey Span α

def addSpan (p : Policy ValueKey Span) (s : Span) : Assembling Unit := do
  let _ ← Builder.addValue p s.parentId s.id s.isShared (some s)

def addSpans (p : Policy ValueKey Span) : List Span → Assembling Unit
  | [] => pure ()
  | s :: rest => do
      addSpan p s
      addSpans p rest

def firstTraceId : List Span → Value
  | [] => .null
  | s :: _ => s.traceId

def assembleSpans (sink : Sink) (spans : List Span) : Assembling NodeId := do
  let p := policy sink (firstTraceId spans)
  addSpans p spans
  Builder.build p

structure Assembled where
  graph : Graph Span
  root : NodeId

def assemble (sink : Sink) (spans : List Span) : Reporting Assembled := fun history =>
  let (outcome, after) := (assembleSpans sink spans).run.run ⟨{}, history⟩
  (outcome.map fun root => ⟨after.builder.graph, root⟩, after.delivery)

/-- The tree of the spans of one trace, which are repaired first if asked for. -/
def buildTree (sink : Sink) (repairFirst : Bool) (spans : List Span) : Reporting Assembled := do
  if repairFirst then
    let merged ← merge sink spans
    assemble sink (merged.spans spans)
  else assemble sink spans

namespace Assembled

def outline (t : Assembled) : Option (Tree (Option Span)) := t.graph.outline t.root

/-- The drawing of the tree. A graph that is no tree has none; building gives no such graph. -/
def draw (indent : Text) (t : Assembled) : Except Fault Text :=
  match t.outline with
  | some tree => Drawing.drawSpans indent tree
  | none => .ok []

end Assembled

end Trace

end SpanForest
