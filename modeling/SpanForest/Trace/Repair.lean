import SpanForest.Diagnostic.Reporting
import SpanForest.Span.CleanupOrder
import SpanForest.Span.Combine

/-!
Repairing a trace. The spans are put in cleanup order; parts of one leg are combined, all spans get
one trace id, no span keeps itself as its parent, and a shared span that was not sent its parent id
takes it from the span before it. A scan first decides whether any of this is needed; if not, the
spans are left as they are. All the spans are taken to be of one trace.
-/

namespace SpanForest

def Value.length : Value → Except Fault Nat
  | .string s => .ok s.length
  | .array items => .ok items.length
  | .object members => .ok members.length
  | v => .error (.noLength v.kind)

theorem Value.length_string (s : Text) : Value.length (.string s) = .ok s.length := rfl

namespace Trace

def fullLength : Nat := 32

/-- A shared span without a parent right after its unshared side, which has one. -/
def missesParent (s t : Span) : Bool :=
  t.id.same s.id && !s.isShared && t.isShared && t.parentId.isNull && !s.parentId.isNull

/-- What the scan knows: the trace id so far, and whether there is anything to repair. -/
structure Scan where
  traceId : Value
  needed : Bool
  deriving DecidableEq

namespace Scan

def flag (s : Scan) (found : Bool) : Scan := ⟨s.traceId, s.needed || found⟩

def meet (state : Scan) (first : Span) : Except Fault Scan := do
  let own ← first.traceId.length
  let length ← state.traceId.length
  let traceId := if length ≠ fullLength then first.traceId else state.traceId
  pure ⟨traceId, state.needed || own != length || first.isOwnParent⟩

/-- Goes on after the leg whose first part is `first`. -/
def goOn (state : Scan) (first : Span) : List Span → Except Fault Scan
  | [] => .ok state
  | next :: rest =>
      if next.sameLeg first then goOn (state.flag true) first rest
      else
        match (state.flag (missesParent first next)).meet next with
        | .error e => .error e
        | .ok state => goOn state next rest

end Scan

def scan (traceId : Value) : List Span → Except Fault Scan
  | [] => .ok ⟨traceId, false⟩
  | first :: rest =>
      match Scan.meet ⟨traceId, false⟩ first with
      | .error e => .error e
      | .ok state => state.goOn first rest

structure Leg where
  first : Span
  others : List Span
  deriving DecidableEq

def Leg.parts (leg : Leg) : List Span := leg.first :: leg.others

/-- The longest stretches of neighbours that are parts of one leg. -/
def legs : List Span → List Leg
  | [] => []
  | s :: rest =>
      match legs rest with
      | [] => [⟨s, []⟩]
      | leg :: others =>
          if leg.first.sameLeg s then ⟨s, leg.parts⟩ :: others else ⟨s, []⟩ :: leg :: others

theorem flatMap_parts_legs (spans : List Span) : (legs spans).flatMap Leg.parts = spans := by
  induction spans with
  | nil => rfl
  | cons s rest ih =>
      simp only [legs]
      split
      · next h => simp [h] at ih; simp [Leg.parts, ih]
      · next leg others h =>
          simp only [h] at ih
          split <;> simp_all [Leg.parts]

def normalize (traceId : Value) (s : Span) : Except Fault Span := do
  let own ← s.traceId.length
  let length ← traceId.length
  pure { s with
    traceId := if own ≠ length then traceId else s.traceId
    parentId := if !s.parentId.isNull && s.parentId.same s.id then .null else s.parentId }

def combinedMessage (count : Nat) (traceId id : Value) : Text :=
  Text.join
    ["merged ", toString count, " parts of span: traceId=", traceId.text, ", spanId=", id.text]

def copiedMessage (traceId id : Value) : Text :=
  Text.join ["copying parent ID onto shared span: traceId=", traceId.text, ", spanId=", id.text]

def combineLeg (traceId : Value) (leg : Leg) : Except Fault Span := do
  let first ← normalize traceId leg.first
  let others ← leg.others.mapM (normalize traceId)
  first.combineAll others

/-- Repairs one leg after the span that the leg before it became. -/
def repairLeg (sink : Sink) (traceId : Value) (previous : Option Span) (leg : Leg) :
    Reporting Span := do
  let s ← combineLeg traceId leg
  let count := leg.parts.length
  if 1 < count then
    report sink ⟨.debug, combinedMessage count traceId s.id, traceId, s.id⟩
  match previous with
  | none => pure s
  | some p =>
      if missesParent p s then
        report sink ⟨.debug, copiedMessage traceId s.id, traceId, s.id⟩
        pure { s with parentId := p.parentId }
      else pure s

def repairLegs (sink : Sink) (traceId : Value) (previous : Option Span) :
    List Leg → Reporting (List Span)
  | [] => pure []
  | leg :: rest => do
      let s ← repairLeg sink traceId previous leg
      let others ← repairLegs sink traceId (some s) rest
      pure (s :: others)

inductive Merged where
  | unchanged
  | repaired (spans : List Span)
  deriving DecidableEq

def Merged.spans (given : List Span) : Merged → List Span
  | .unchanged => given
  | .repaired spans => spans

def merge (sink : Sink) (spans : List Span) : Reporting Merged :=
  match spans with
  | [] => pure .unchanged
  | [_] => pure .unchanged
  | first :: _ => do
      let ordered ← Span.cleanupSort spans
      let found ← scan first.traceId ordered
      if found.needed then
        let repaired ← repairLegs sink found.traceId none (legs ordered)
        pure (.repaired repaired)
      else pure .unchanged

end Trace

end SpanForest
