import SpanForest.Value.Basic

/-!
Spans: one leg of a traced operation each. Reporters may fill the fields with values of any kind, so
fields are values; `WellTyped` says that each has its declared kind. A client and a server can report
one id as the two sides of a call, and then the server's side is flagged shared.
-/

namespace SpanForest

/-- Where a leg ran. The null value stands for a field that is not set. -/
structure Endpoint where
  serviceName : Value := .null
  ipv4 : Value := .null
  ipv6 : Value := .null
  port : Value := .null
  deriving DecidableEq

structure Annotation where
  timestamp : Value
  value : Value
  deriving DecidableEq

structure Span where
  traceId : Value := .null
  id : Value := .null
  parentId : Value := .null
  kind : Value := .null
  name : Value := .null
  timestamp : Value := .null
  duration : Value := .null
  localEndpoint : Option Endpoint := none
  remoteEndpoint : Option Endpoint := none
  annotations : List Annotation := []
  tags : Table Text Value := []
  debug : Value := .null
  shared : Value := .null
  deriving DecidableEq

instance : Inhabited Span := ⟨{}⟩

namespace Value

inductive IsOptionalString : Value → Prop where
  | absent : IsOptionalString .null
  | present (s : Text) : IsOptionalString (.string s)

inductive IsOptionalInt : Value → Prop where
  | absent : IsOptionalInt .null
  | present (n : Int) : IsOptionalInt (.int n)

inductive IsFlag : Value → Prop where
  | absent : IsFlag .null
  | present (b : Bool) : IsFlag (.bool b)

end Value

namespace Endpoint

structure WellTyped (e : Endpoint) : Prop where
  serviceName : e.serviceName.IsOptionalString
  ipv4 : e.ipv4.IsOptionalString
  ipv6 : e.ipv6.IsOptionalString
  port : e.port.IsOptionalInt

def same (e f : Endpoint) : Bool :=
  e.serviceName.same f.serviceName && e.ipv4.same f.ipv4 && e.ipv6.same f.ipv6
    && e.port.same f.port

def sameOption : Option Endpoint → Option Endpoint → Bool
  | none, none => true
  | some e, some f => e.same f
  | _, _ => false

end Endpoint

namespace Annotation

structure WellTyped (a : Annotation) : Prop where
  timestamp : ∃ n, a.timestamp = .int n
  value : ∃ s, a.value = .string s

def same (a b : Annotation) : Bool := a.timestamp.same b.timestamp && a.value.same b.value

def sameList : List Annotation → List Annotation → Bool
  | [], [] => true
  | a :: as, b :: bs => a.same b && sameList as bs
  | _, _ => false

end Annotation

namespace Span

structure WellTyped (s : Span) : Prop where
  traceId : ∃ t, s.traceId = .string t
  id : ∃ t, s.id = .string t
  parentId : s.parentId.IsOptionalString
  kind : s.kind.IsOptionalString
  name : s.name.IsOptionalString
  timestamp : s.timestamp.IsOptionalInt
  duration : s.duration.IsOptionalInt
  localEndpoint : ∀ e ∈ s.localEndpoint, e.WellTyped
  remoteEndpoint : ∀ e ∈ s.remoteEndpoint, e.WellTyped
  annotations : ∀ a ∈ s.annotations, a.WellTyped
  tags : ∀ t ∈ s.tags, ∃ text, t.2 = .string text
  tagNames : (Table.keys s.tags).Nodup
  debug : s.debug.IsFlag
  shared : s.shared.IsFlag

/-- Whether this is the server's side of a call: only the truth value itself says so. -/
def isShared (s : Span) : Bool := s.shared.isTrue

def serviceName (s : Span) : Value :=
  match s.localEndpoint with
  | some e => e.serviceName
  | none => .null

def isOwnParent (s : Span) : Bool := s.id.same s.parentId

/-- Equality of spans by value; tags are compared without regard to order. -/
def same (s t : Span) : Bool :=
  s.traceId.same t.traceId && s.id.same t.id && s.parentId.same t.parentId && s.kind.same t.kind
    && s.name.same t.name && s.timestamp.same t.timestamp && s.duration.same t.duration
    && Endpoint.sameOption s.localEndpoint t.localEndpoint
    && Endpoint.sameOption s.remoteEndpoint t.remoteEndpoint
    && Annotation.sameList s.annotations t.annotations
    && (Value.object s.tags).same (.object t.tags)
    && s.debug.same t.debug && s.shared.same t.shared

def sameList : List Span → List Span → Bool
  | [], [] => true
  | s :: ss, t :: ts => s.same t && sameList ss ts
  | _, _ => false

end Span

end SpanForest
