import SpanForest.Json.Writer
import SpanForest.Span.Basic

/-!
Writing spans as JSON. A field is left out if it is null or an empty array or object; empty strings,
zeros and false are written. Tags are written as they are, whatever their values.
-/

namespace SpanForest

namespace Value

def isBlankField : Value → Bool
  | .null => true
  | .array items => items.isEmpty
  | .object members => members.isEmpty
  | _ => false

def ofFields (fields : List (Text × Value)) : Value :=
  .object (fields.filter fun field => !field.2.isBlankField)

end Value

namespace Endpoint

def fields (e : Endpoint) : List (Text × Value) :=
  [("serviceName", e.serviceName), ("ipv4", e.ipv4), ("ipv6", e.ipv6), ("port", e.port)]

def toValue (e : Endpoint) : Value := .ofFields e.fields

def optionToValue : Option Endpoint → Value
  | some e => e.toValue
  | none => .null

end Endpoint

def Annotation.toValue (a : Annotation) : Value :=
  .ofFields [("timestamp", a.timestamp), ("value", a.value)]

namespace Span

/-- The fields of a span with their names, before any are left out. -/
def fields (s : Span) : List (Text × Value) :=
  [("traceId", s.traceId), ("id", s.id), ("parentId", s.parentId), ("kind", s.kind),
    ("name", s.name), ("timestamp", s.timestamp), ("duration", s.duration),
    ("localEndpoint", Endpoint.optionToValue s.localEndpoint),
    ("remoteEndpoint", Endpoint.optionToValue s.remoteEndpoint),
    ("annotations", .array (s.annotations.map Annotation.toValue)),
    ("tags", .object s.tags), ("debug", s.debug), ("shared", s.shared)]

def toValue (s : Span) : Value := .ofFields s.fields

def writeList (spans : List Span) : List Char := Json.write (.array (spans.map toValue))

end Span

end SpanForest
