import SpanForest.Span.Basic
import SpanForest.Value.Text

/-!
Spans as messages show them: the name of the record and all of its fields in order.
-/

namespace SpanForest

namespace Span

def field (name : String) (shown : List Char) : List Char := name.toList ++ '=' :: shown

def record (name : String) (fields : List (List Char)) : List Char :=
  name.toList ++ '(' :: (", ".toList).intercalate fields ++ [')']

end Span

def Endpoint.quoted (e : Endpoint) : List Char :=
  Span.record "Endpoint"
    [Span.field "service_name" e.serviceName.quoted, Span.field "ipv4" e.ipv4.quoted,
      Span.field "ipv6" e.ipv6.quoted, Span.field "port" e.port.quoted]

def Endpoint.optionQuoted : Option Endpoint → List Char
  | some e => e.quoted
  | none => Value.null.quoted

def Annotation.quoted (a : Annotation) : List Char :=
  Span.record "Annotation"
    [Span.field "timestamp" a.timestamp.quoted, Span.field "value" a.value.quoted]

namespace Span

def quoted (s : Span) : List Char :=
  record "Span"
    [field "trace_id" s.traceId.quoted, field "id" s.id.quoted,
      field "parent_id" s.parentId.quoted, field "kind" s.kind.quoted,
      field "name" s.name.quoted, field "timestamp" s.timestamp.quoted,
      field "duration" s.duration.quoted,
      field "local_endpoint" (Endpoint.optionQuoted s.localEndpoint),
      field "remote_endpoint" (Endpoint.optionQuoted s.remoteEndpoint),
      field "annotations"
        ('[' :: (", ".toList).intercalate (s.annotations.map Annotation.quoted) ++ [']']),
      field "tags" (Value.object s.tags).quoted, field "debug" s.debug.quoted,
      field "shared" s.shared.quoted]

end Span

end SpanForest
