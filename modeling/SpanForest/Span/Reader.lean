import SpanForest.Json.Reader
import SpanForest.Span.Combine
import SpanForest.Span.Id
import SpanForest.Value.Integer
import SpanForest.Value.Text

/-!
Reading spans from JSON. A line holds one span or an array of them; elements that are malformed are
passed over, and other text than an object or an array is a fault of the line. Fields have two
spellings, and the second counts where the first is null. Kind, name, addresses and flags are kept
as they come.
-/

namespace SpanForest

structure Fields where
  members : Table Text Value

namespace Fields

def get (f : Fields) (name : Text) : Value := (Table.find? name f.members).getD .null

/-- A field under its first name, or under its second where that is null. -/
def either (f : Fields) (name other : Text) : Value :=
  if (f.get name).isNull then f.get other else f.get name

def require (f : Fields) (name : String) : Except Fault Value :=
  match Table.find? (Text.ofString name) f.members with
  | some v => .ok v
  | none => .error (.missingField name)

end Fields

namespace Value

def ifSet (v : Value) : Value := v.orElse .null

def optionalInteger (v : Value) : Except Fault Value :=
  if v.isSet then
    match v.toInteger with
    | .error e => .error e
    | .ok n => .ok (.int n)
  else .ok .null

end Value

namespace Endpoint

/-- The endpoint in a field: none if the value is no object or sets nothing. -/
def read (v : Value) : Except Fault (Option Endpoint) :=
  match v with
  | .object members =>
      let fields : Fields := ⟨members⟩
      let name := fields.either "serviceName" "service_name"
      match (fields.get "port").optionalInteger with
      | .error e => .error e
      | .ok port =>
          let e : Endpoint :=
            { serviceName := if name.isSet then .string (Text.lower name.text) else .null
              ipv4 := (fields.get "ipv4").ifSet
              ipv6 := (fields.get "ipv6").ifSet
              port }
          .ok (if e = {} then none else some e)
  | _ => .ok none

end Endpoint

namespace Annotation

def read (fields : Fields) : Except Fault Annotation := do
  let timestamp ← fields.require "timestamp"
  let timestamp ← timestamp.toInteger
  let value ← fields.require "value"
  pure ⟨.int timestamp, .string value.text⟩

/-- The annotations among some elements: those that are objects. -/
def readItems : List Value → Except Fault (List Annotation)
  | [] => .ok []
  | .object members :: rest => do
      let a ← read ⟨members⟩
      let tail ← readItems rest
      pure (a :: tail)
  | _ :: rest => readItems rest

/-- The elements of a field that is set. A string and an object have elements too, none of which is
an annotation. -/
def elements (v : Value) : Except Fault (List Value) :=
  if v.isSet then
    match v with
    | .array items => .ok items
    | .string _ => .ok []
    | .object _ => .ok []
    | v => .error (.noElements v.kind)
  else .ok []

end Annotation

namespace Span

def readTags (v : Value) : Table Text Value :=
  match v with
  | .object members => members.map fun entry => (entry.1, .string entry.2.text)
  | _ => []

def readFields (fields : Fields) : Except Fault Span := do
  let traceId ← Id.ofValue (fields.either "traceId" "trace_id")
  let id ← fields.require "id"
  let id ← Id.ofValue id
  if traceId = [] then .error (.missingField "traceId")
  else if id = [] then .error (.missingField "id")
  else
    let parentId ← Id.ofValue (fields.either "parentId" "parent_id")
    let items ← Annotation.elements (fields.get "annotations")
    let annotations ← Annotation.readItems items
    let timestamp ← (fields.get "timestamp").optionalInteger
    let duration ← (fields.get "duration").optionalInteger
    let localEndpoint ← Endpoint.read (fields.either "localEndpoint" "local_endpoint")
    let remoteEndpoint ← Endpoint.read (fields.either "remoteEndpoint" "remote_endpoint")
    let annotations ← Annotation.sort annotations
    pure
      { traceId := .string traceId
        id := .string id
        parentId := if parentId = [] then .null else .string parentId
        kind := (fields.get "kind").ifSet
        name := (fields.get "name").ifSet
        timestamp
        duration
        localEndpoint
        remoteEndpoint
        annotations
        tags := readTags (fields.get "tags")
        debug := fields.get "debug"
        shared := fields.get "shared" }

def read (v : Value) : Except Fault Span :=
  match v with
  | .object members => readFields ⟨members⟩
  | v => .error (.noField v.kind "get")

/-- The spans among some elements. One that is malformed, or no object, gives none. -/
def readItems : List Value → Except Fault (List Span)
  | [] => .ok []
  | .object members :: rest =>
      match readFields ⟨members⟩ with
      | .ok s =>
          match readItems rest with
          | .ok ss => .ok (s :: ss)
          | .error e => .error e
      | .error e => if e.isMalformed then readItems rest else .error e
  | _ :: rest => readItems rest

def readLine (line : List Char) : Except Fault (List Span) :=
  match Json.read line with
  | .error e => .error e
  | .ok (.object members) => readItems [.object members]
  | .ok (.array items) => readItems items
  | .ok _ => .error .notSpans

end Span

end SpanForest
