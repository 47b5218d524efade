import SpanForest.Sorting
import SpanForest.Span.Basic
import SpanForest.Value.Order

/-!
The order that puts parts of one span next to each other: by id, then the shared side last, then by
the local endpoint, a missing one first so that its data joins the next part. Endpoint fields that are
not set come first; ports are not compared, since a server can get one request on two ports.
-/

namespace SpanForest

namespace Endpoint

/-- The order of one field; `later` decides between fields that are the same. -/
def fieldBefore (v w : Value) (later : Except Fault Bool) : Except Fault Bool :=
  match v.isNull, w.isNull with
  | true, true => later
  | true, false => .ok true
  | false, true => .ok false
  | false, false => if v.same w then later else v.before w

def before (e f : Endpoint) : Except Fault Bool :=
  fieldBefore e.serviceName f.serviceName
    (fieldBefore e.ipv4 f.ipv4 (fieldBefore e.ipv6 f.ipv6 (.ok false)))

def isPlainField (v : Value) : Bool := v.isNull || v.isString

theorem isPlainField_of_isOptionalString {v : Value} (h : v.IsOptionalString) :
    isPlainField v = true := by
  cases h <;> rfl

def isPlain (e : Endpoint) : Bool :=
  isPlainField e.serviceName && isPlainField e.ipv4 && isPlainField e.ipv6

theorem isPlain_of_wellTyped {e : Endpoint} (h : e.WellTyped) : e.isPlain = true := by
  simp [isPlain, isPlainField_of_isOptionalString h.serviceName,
    isPlainField_of_isOptionalString h.ipv4, isPlainField_of_isOptionalString h.ipv6]

def beforeOption : Option Endpoint → Option Endpoint → Except Fault Bool
  | _, none => .ok false
  | none, some _ => .ok true
  | some e, some f => e.before f

end Endpoint

namespace Span

def cleanupBefore (s t : Span) : Except Fault Bool :=
  if s.id.same t.id then
    if s.isShared = t.isShared then Endpoint.beforeOption s.localEndpoint t.localEndpoint
    else .ok (!s.isShared)
  else s.id.before t.id

def isPlain (s : Span) : Bool := s.id.isString && s.localEndpoint.all Endpoint.isPlain

theorem isPlain_of_wellTyped {s : Span} (h : s.WellTyped) : s.isPlain = true := by
  obtain ⟨t, ht⟩ := h.id
  have he := h.localEndpoint
  cases hl : s.localEndpoint with
  | none => simp [isPlain, ht, hl, Value.isString]
  | some e =>
      simp [isPlain, ht, hl, Value.isString, Endpoint.isPlain_of_wellTyped (he e (by simp [hl]))]

/-- Stable: spans that the order does not tell apart stay as they were given. -/
def cleanupSort (spans : List Span) : Except Fault (List Span) :=
  Sorting.sort isPlain cleanupBefore spans

theorem cleanupSort_wellTyped {spans : List Span} (h : ∀ s ∈ spans, s.WellTyped) :
    cleanupSort spans = .ok (Sorting.sortStable (Sorting.holds cleanupBefore) spans) :=
  Sorting.sort_plain (fun s hs => isPlain_of_wellTyped (h s hs)) cleanupBefore

def cleanupPositions (spans : List Span) : Except Fault (List Nat) :=
  (Sorting.sort (fun p : Span × Nat => p.1.isPlain) (fun p q => cleanupBefore p.1 q.1)
    spans.zipIdx).map (·.map Prod.snd)

/-- Whether two spans are parts of one leg: one id, one side, one local endpoint. -/
def sameLeg (s t : Span) : Bool :=
  s.id.same t.id && s.isShared == t.isShared
    && Endpoint.sameOption s.localEndpoint t.localEndpoint

end Span

end SpanForest
