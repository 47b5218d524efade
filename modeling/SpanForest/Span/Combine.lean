import SpanForest.Sorting
import SpanForest.Span.Basic
import SpanForest.Value.Key
import SpanForest.Value.Order

/-!
Combining two parts of one span. What the first part has is kept and the second only fills gaps,
with four exceptions: a name `unknown` gives way, tags of the second part override, annotations are
united and sorted, and a flag is set if either part sets it.
-/

namespace SpanForest

namespace Endpoint

def combine (e f : Endpoint) : Endpoint :=
  { serviceName := e.serviceName.orElse f.serviceName
    ipv4 := e.ipv4.orElse f.ipv4
    ipv6 := e.ipv6.orElse f.ipv6
    port := if e.port.isNull then f.port else e.port }

def combineOption : Option Endpoint → Option Endpoint → Option Endpoint
  | none, f => f
  | e, none => e
  | some e, some f => some (e.combine f)

def gaps (e : Endpoint) : List String :=
  let named := [("service_name", e.serviceName.isSet), ("ipv4", e.ipv4.isSet), ("ipv6", e.ipv6.isSet),
    ("port", !e.port.isNull)]
  (named.filter fun field => !field.2).map Prod.fst

/-- Combines an endpoint with what should be another part of it, which is missed where the first part
leaves a gap. -/
def combineWith (e : Endpoint) : Option Endpoint → Except Fault Endpoint
  | some f => .ok (e.combine f)
  | none =>
      match e.gaps with
      | [] => .ok e
      | field :: _ => .error (.noField .null field)

end Endpoint

namespace Annotation

def check (a : Annotation) : Except Fault Unit :=
  match a.timestamp.checkKey with
  | .error e => .error e
  | .ok _ => a.value.checkKey

/-- Each annotation once, where it first stands; `seen` are those already there. -/
def distinctFrom (seen : List Annotation) : List Annotation → List Annotation
  | [] => []
  | a :: rest =>
      if seen.any (·.same a) then distinctFrom seen rest
      else a :: distinctFrom (seen ++ [a]) rest

def distinct (as : List Annotation) : List Annotation := distinctFrom [] as

def before (a b : Annotation) : Except Fault Bool :=
  if a.timestamp.same b.timestamp then
    if a.value.same b.value then .ok false else a.value.before b.value
  else a.timestamp.before b.timestamp

def isPlain (a : Annotation) : Bool := a.timestamp.isInt && a.value.isString

theorem isPlain_of_wellTyped {a : Annotation} (h : a.WellTyped) : a.isPlain = true := by
  obtain ⟨n, hn⟩ := h.timestamp
  obtain ⟨s, hs⟩ := h.value
  simp [isPlain, hn, hs, Value.isInt, Value.isString]

def sort (as : List Annotation) : Except Fault (List Annotation) := Sorting.sort isPlain before as

def union (as bs : List Annotation) : Except Fault (List Annotation) :=
  match (as ++ bs).forM check with
  | .error e => .error e
  | .ok _ => sort (distinct (as ++ bs))

end Annotation

namespace Span

def unknownName : Value := .string "unknown"

/-- The name kept: the first if it says something, else the second if set, else the first. -/
def combineName (v w : Value) : Value :=
  if v.isSet && !v.same unknownName then v else w.orElse v

def combineFlag (v w : Value) : Value := if v.isSet || w.isSet then .bool true else v

def combine (s t : Span) : Except Fault Span :=
  match Annotation.union s.annotations t.annotations with
  | .error e => .error e
  | .ok annotations =>
      .ok { s with
        parentId := s.parentId.orElse t.parentId
        kind := s.kind.orElse t.kind
        name := combineName s.name t.name
        timestamp := s.timestamp.orElse t.timestamp
        duration := s.duration.orElse t.duration
        localEndpoint := Endpoint.combineOption s.localEndpoint t.localEndpoint
        remoteEndpoint := Endpoint.combineOption s.remoteEndpoint t.remoteEndpoint
        annotations
        tags := Table.update s.tags t.tags
        debug := combineFlag s.debug t.debug
        shared := combineFlag s.shared t.shared }

def combineWith (s : Span) : Option Span → Except Fault Span
  | some t => s.combine t
  | none => .error .missingOther

def combineAll (s : Span) : List Span → Except Fault Span
  | [] => .ok s
  | t :: rest =>
      match s.combine t with
      | .error e => .error e
      | .ok s => combineAll s rest

def combineOption : Option Span → Option Span → Except Fault (Option Span)
  | none, t => .ok t
  | s, none => .ok s
  | some s, some t =>
      match s.combine t with
      | .error e => .error e
      | .ok s => .ok (some s)

end Span

end SpanForest
