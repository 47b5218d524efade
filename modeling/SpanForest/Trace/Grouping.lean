import SpanForest.Span.Basic
import SpanForest.Value.Key

/-!
Spans by trace. Traces come in the order of their first spans, and the spans of a trace in the order
they were given. A trace goes by the id that its first span gives; a span whose trace id cannot be a
key is a fault.
-/

namespace SpanForest.Trace

abbrev Groups := Table ValueKey (List Span)

def addTo (groups : Groups) (s : Span) : Groups :=
  groups.put ⟨s.traceId⟩ ((groups.find? ⟨s.traceId⟩).getD [] ++ [s])

def groups (spans : List Span) : Groups := spans.foldl addTo []

theorem groups_append (spans : List Span) (s : Span) :
    groups (spans ++ [s]) = addTo (groups spans) s := by
  simp [groups]

def groupByTrace (spans : List Span) : Except Fault Groups :=
  match spans.forM fun s => s.traceId.checkKey with
  | .error e => .error e
  | .ok _ => .ok (groups spans)

theorem forM_checkKey_string {spans : List Span} (h : ∀ s ∈ spans, ∃ t, s.traceId = .string t) :
    (spans.forM fun s => s.traceId.checkKey) = .ok () := by
  induction spans with
  | nil => rfl
  | cons s rest ih =>
      obtain ⟨t, ht⟩ := h s (by simp)
      show (s.traceId.checkKey >>= fun _ => rest.forM fun s => s.traceId.checkKey) = .ok ()
      rw [ht, Value.checkKey_string]
      exact ih fun s hs => h s (by simp [hs])

theorem groupByTrace_string {spans : List Span} (h : ∀ s ∈ spans, ∃ t, s.traceId = .string t) :
    groupByTrace spans = .ok (groups spans) := by
  rw [groupByTrace, forM_checkKey_string h]

end SpanForest.Trace
