import SpanForest.Proofs.Json.ReadBack
import SpanForest.Proofs.Span.Annotations
import SpanForest.Span.Reader
import SpanForest.Span.Writer

/-!
Spans read back from the text they are written as. A field that is left out is read as null, and so
is a number that is zero; all else comes back, if ids and service names are in their one form and
annotations are in order.
-/

namespace SpanForest

namespace Value

/-- What a field is read as that was written with a value: nothing if it was left out. -/
def written (v : Value) : Value := if v.isBlankField then .null else v

theorem written_string (s : Text) : written (.string s) = .string s := rfl

theorem ifSet_written (v : Value) : v.written.ifSet = v.ifSet := by
  cases v with
  | array items => cases items <;> rfl
  | object members => cases members <;> rfl
  | _ => rfl

/-- Null, or a string of a certain sort. -/
inductive IsNullOrString (P : Text → Prop) : Value → Prop where
  | null : IsNullOrString P .null
  | string {s : Text} (h : P s) : IsNullOrString P (.string s)

theorem IsNullOrString.imp {P Q : Text → Prop} (hPQ : ∀ s, P s → Q s) {v : Value}
    (h : v.IsNullOrString P) : v.IsNullOrString Q := by
  cases h with
  | null => exact .null
  | string hs => exact .string (hPQ _ hs)

theorem written_of_ne {v : Value} (h : v ≠ .array [] ∧ v ≠ .object []) : v.written = v := by
  cases v with
  | array items =>
      cases items with
      | nil => exact absurd rfl h.1
      | cons x xs => rfl
  | object members =>
      cases members with
      | nil => exact absurd rfl h.2
      | cons x xs => rfl
  | _ => rfl

theorem IsOptionalInt.ifSet_eq {v : Value} (h : v.IsOptionalInt) (hzero : v ≠ .int 0) :
    v.ifSet = v := by
  cases h with
  | absent => rfl
  | present n =>
      refine orElse_of_isSet (bne_iff_ne.2 ?_)
      rintro rfl
      exact hzero rfl

theorem isSet_string {t : Text} (h : t ≠ []) : (Value.string t).isSet = true := by
  simpa [isSet] using h

theorem optionalInteger_written {v : Value} (h : v.IsOptionalInt) :
    v.written.optionalInteger = .ok v.ifSet := by
  cases h with
  | absent => rfl
  | present n =>
      rw [written, if_neg (by simp [isBlankField]), optionalInteger, ifSet, orElse]
      split <;> rfl

end Value

namespace Fields

theorem get_written {fields : List (Text × Value)} (hnames : (Table.keys fields).Nodup)
    (name : Text) : get ⟨fields.filter fun field => !field.2.isBlankField⟩ name =
      ((Table.find? name fields).getD .null).written := by
  rw [get, Table.find?_filter hnames name fun v => !v.isBlankField]
  cases Table.find? name fields with
  | none => rfl
  | some v =>
      rw [Option.filter, Option.getD_some, Value.written]
      cases v.isBlankField <;> rfl

theorem either_of_null {f : Fields} {name other : Text} {v : Value} (hother : f.get other = .null)
    (h : f.get name = v) : f.either name other = v := by
  rw [either, h, hother]
  split
  · next hnull => exact ((Value.isNull_iff v).1 hnull).symm
  · rfl

end Fields

namespace Endpoint

/-- An endpoint as the reader leaves it. -/
structure Regular (e : Endpoint) : Prop where
  serviceName : e.serviceName.IsNullOrString fun s => s ≠ [] ∧ Text.lower s = s
  ipv4 : e.ipv4.ifSet = e.ipv4
  ipv6 : e.ipv6.ifSet = e.ipv6
  port : e.port.IsOptionalInt
  notEmpty : e ≠ {}

/-- What an endpoint is read back as: a port that is zero is not set. -/
def settled (e : Endpoint) : Option Endpoint :=
  if { e with port := e.port.ifSet } = ({} : Endpoint) then none
  else some { e with port := e.port.ifSet }

theorem settled_eq {e : Endpoint} (h : e.Regular) (hport : e.port ≠ .int 0) : e.settled = some e := by
  rw [settled, h.port.ifSet_eq hport]
  exact if_neg h.notEmpty

theorem bind_settled {e : Option Endpoint} (h : ∀ x ∈ e, x.Regular)
    (hport : ∀ x ∈ e, x.port ≠ .int 0) : e.bind settled = e := by
  cases e with
  | none => rfl
  | some e => exact settled_eq (h e rfl) (hport e rfl)

theorem lowered_serviceName {v : Value}
    (h : v.IsNullOrString fun s => s ≠ [] ∧ Text.lower s = s) :
    (if v.written.isSet then .string (Text.lower v.written.text) else .null) = v := by
  cases h with
  | null => rfl
  | @string s hs =>
      rw [Value.written_string, if_pos (Value.isSet_string hs.1), Value.text_string, hs.2]

theorem nodup_fields (e : Endpoint) : (Table.keys e.fields).Nodup := by
  simp [fields, Table.keys]

theorem read_toValue {e : Endpoint} (h : e.Regular) : read e.toValue = .ok e.settled := by
  have hget := Fields.get_written e.nodup_fields
  have hname := hget "serviceName"
  have hother := hget "service_name"
  have hipv4 := hget "ipv4"
  have hipv6 := hget "ipv6"
  have hport := hget "port"
  simp only [fields, Table.find?, Text.ofString_beq, String.reduceBEq, Bool.false_eq_true, if_false,
    if_true, Option.getD_some, Option.getD_none] at hname hother hipv4 hipv6 hport
  have heither := Fields.either_of_null hother hname
  simp only [toValue, fields, Value.ofFields, read, heither, hipv4, hipv6, hport, Value.ifSet_written, h.ipv4,
    h.ipv6, Value.optionalInteger_written h.port, lowered_serviceName h.serviceName, settled]

theorem read_written (v : Value) : read v.written = read v := by
  cases v with
  | array items => cases items <;> rfl
  | object members => cases members <;> rfl
  | _ => rfl

theorem read_optionToValue {e : Option Endpoint} (h : ∀ x ∈ e, x.Regular) :
    read (optionToValue e).written = .ok (e.bind settled) := by
  rw [read_written]
  cases e with
  | none => rfl
  | some e => exact read_toValue (h e rfl)

end Endpoint

namespace Annotation

theorem readItems_toValue {as : List Annotation} (typed : ∀ a ∈ as, a.WellTyped) :
    readItems (as.map toValue) = .ok as := by
  induction as with
  | nil => rfl
  | cons a as ih =>
      obtain ⟨⟨n, hn⟩, ⟨s, hs⟩⟩ := typed a List.mem_cons_self
      have hrest := ih fun b hb => typed b (List.mem_cons_of_mem a hb)
      obtain ⟨timestamp, value⟩ := a
      obtain rfl : timestamp = .int n := hn
      obtain rfl : value = .string s := hs
      have hread : read ⟨[("timestamp", .int n), ("value", .string s)]⟩ =
        .ok ⟨.int n, .string s⟩ := rfl
      have htoValue : toValue ⟨.int n, .string s⟩ =
        .object [("timestamp", .int n), ("value", .string s)] := rfl
      rw [List.map_cons, htoValue, readItems, hread, hrest]
      rfl

theorem elements_written (items : List Value) : elements (Value.array items).written = .ok items := by
  cases items <;> rfl

end Annotation

namespace Span

/-- A span as the reader leaves it. -/
structure Regular (s : Span) : Prop where
  traceId : ∃ t, s.traceId = .string t ∧ t ≠ [] ∧ Id.normal t = t
  id : ∃ t, s.id = .string t ∧ t ≠ [] ∧ Id.normal t = t
  parentId : s.parentId.IsNullOrString fun t => t ≠ [] ∧ Id.normal t = t
  kind : s.kind.ifSet = s.kind
  name : s.name.ifSet = s.name
  timestamp : s.timestamp.IsOptionalInt
  duration : s.duration.IsOptionalInt
  localEndpoint : ∀ e ∈ s.localEndpoint, e.Regular
  remoteEndpoint : ∀ e ∈ s.remoteEndpoint, e.Regular
  annotations : ∀ a ∈ s.annotations, a.WellTyped
  inOrder : Sorting.InOrder Annotation.sortKey s.annotations
  tags : ∀ t ∈ s.tags, ∃ text, t.2 = .string text
  tagNames : (Table.keys s.tags).Nodup

/-- What a span is read back as: numbers that are zero are not set, nor are empty arrays and objects. -/
def settled (s : Span) : Span :=
  { s with
    timestamp := s.timestamp.ifSet
    duration := s.duration.ifSet
    localEndpoint := s.localEndpoint.bind Endpoint.settled
    remoteEndpoint := s.remoteEndpoint.bind Endpoint.settled
    debug := s.debug.written
    shared := s.shared.written }

/-- A span that is read back as it is: no number is zero, and no flag an empty array or object. -/
structure Steady (s : Span) : Prop where
  timestamp : s.timestamp ≠ .int 0
  duration : s.duration ≠ .int 0
  localEndpoint : ∀ e ∈ s.localEndpoint, e.port ≠ .int 0
  remoteEndpoint : ∀ e ∈ s.remoteEndpoint, e.port ≠ .int 0
  debug : s.debug ≠ .array [] ∧ s.debug ≠ .object []
  shared : s.shared ≠ .array [] ∧ s.shared ≠ .object []

theorem Steady.settled_eq {s : Span} (h : s.Steady) (regular : s.Regular) : s.settled = s := by
  rw [settled, regular.timestamp.ifSet_eq h.timestamp, regular.duration.ifSet_eq h.duration,
    Endpoint.bind_settled regular.localEndpoint h.localEndpoint,
    Endpoint.bind_settled regular.remoteEndpoint h.remoteEndpoint, Value.written_of_ne h.debug,
    Value.written_of_ne h.shared]

theorem nodup_fields (s : Span) : (Table.keys s.fields).Nodup := by
  simp [fields, Table.keys]

theorem ofValue_id {t : Text} (hne : t ≠ []) (hnormal : Id.normal t = t) :
    Id.ofValue (.string t) = .ok t := by
  rw [Id.ofValue, if_pos (Value.isSet_string hne)]
  exact congrArg Except.ok hnormal

theorem readTags_written {tags : Table Text Value}
    (h : ∀ t ∈ tags, ∃ text, t.2 = .string text) :
    readTags (Value.object tags).written = tags := by
  cases tags with
  | nil => rfl
  | cons entry rest =>
      refine (List.map_congr_left fun t ht => ?_).trans (List.map_id _)
      obtain ⟨text, htext⟩ := h t ht
      exact Prod.ext rfl (by rw [htext, Value.text_string]; exact htext.symm)

theorem ofValue_parentId {v : Value} (h : v.IsNullOrString fun t => t ≠ [] ∧ Id.normal t = t) :
    Id.ofValue v.written = .ok v.textOrEmpty ∧
      (if v.textOrEmpty = [] then .null else .string v.textOrEmpty) = v := by
  cases h with
  | null => exact ⟨rfl, rfl⟩
  | string ht => exact ⟨ofValue_id ht.1 ht.2, if_neg ht.1⟩

theorem read_toValue {s : Span} (h : s.Regular) : read s.toValue = .ok s.settled := by
  have hget := Fields.get_written s.nodup_fields
  have hrequire : Table.find? (Text.ofString "id")
      (s.fields.filter fun field => !field.2.isBlankField) = some s.id := by
    obtain ⟨id, hid, -⟩ := h.id
    rw [Table.find?_filter s.nodup_fields _ fun v => !v.isBlankField]
    show (some s.id).filter _ = some s.id
    rw [hid]
    rfl
  show readFields ⟨s.fields.filter fun field => !field.2.isBlankField⟩ = _
  generalize s.fields.filter (fun field => !field.2.isBlankField) = members at *
  obtain ⟨traceId, htrace, htraceNe, htraceNormal⟩ := h.traceId
  obtain ⟨id, hid, hidNe, hidNormal⟩ := h.id
  obtain ⟨hparent, hparentId⟩ := ofValue_parentId h.parentId
  have htraceId : Id.ofValue (Fields.either ⟨members⟩ "traceId" "trace_id") = .ok traceId := by
    rw [Fields.either_of_null (hget "trace_id") (hget "traceId")]
    show Id.ofValue s.traceId.written = _
    rw [htrace]
    exact ofValue_id htraceNe htraceNormal
  have hparentId' : Id.ofValue (Fields.either ⟨members⟩ "parentId" "parent_id") =
      .ok s.parentId.textOrEmpty := by
    rw [Fields.either_of_null (hget "parent_id") (hget "parentId")]
    exact hparent
  have hlocal : Endpoint.read (Fields.either ⟨members⟩ "localEndpoint" "local_endpoint") =
      .ok (s.localEndpoint.bind Endpoint.settled) := by
    rw [Fields.either_of_null (hget "local_endpoint") (hget "localEndpoint")]
    exact Endpoint.read_optionToValue h.localEndpoint
  have hremote : Endpoint.read (Fields.either ⟨members⟩ "remoteEndpoint" "remote_endpoint") =
      .ok (s.remoteEndpoint.bind Endpoint.settled) := by
    rw [Fields.either_of_null (hget "remote_endpoint") (hget "remoteEndpoint")]
    exact Endpoint.read_optionToValue h.remoteEndpoint
  have hitems : Annotation.elements (Fields.get ⟨members⟩ "annotations") =
      .ok (s.annotations.map Annotation.toValue) := by
    rw [hget]
    exact Annotation.elements_written _
  have htimestamp : (Fields.get ⟨members⟩ "timestamp").optionalInteger = .ok s.timestamp.ifSet := by
    rw [hget]
    exact Value.optionalInteger_written h.timestamp
  have hduration : (Fields.get ⟨members⟩ "duration").optionalInteger = .ok s.duration.ifSet := by
    rw [hget]
    exact Value.optionalInteger_written h.duration
  have htags : readTags (Fields.get ⟨members⟩ "tags") = s.tags := by
    rw [hget]
    exact readTags_written h.tags
  have hkind : (Fields.get ⟨members⟩ "kind").ifSet = s.kind := by
    rw [hget]
    exact (Value.ifSet_written s.kind).trans h.kind
  have hname : (Fields.get ⟨members⟩ "name").ifSet = s.name := by
    rw [hget]
    exact (Value.ifSet_written s.name).trans h.name
  have hdebug : Fields.get ⟨members⟩ "debug" = s.debug.written := hget "debug"
  have hshared : Fields.get ⟨members⟩ "shared" = s.shared.written := hget "shared"
  simp only [readFields, htraceId, hparentId', hlocal, hremote, hitems, htimestamp, hduration, htags,
    Annotation.readItems_toValue h.annotations, Annotation.sort_of_inOrder h.annotations h.inOrder,
    Fields.require, hrequire, hid, ofValue_id hidNe hidNormal, bind, Except.bind, pure, Except.pure,
    if_neg htraceNe, if_neg hidNe, hparentId, hkind, hname, hdebug, hshared]
  rw [← htrace, ← hid]
  rfl

end Span

/-! Text can stand for a span if it can for its fields. -/

theorem Value.readable_ofFields {fields : List (Text × Value)} (hnames : (Table.keys fields).Nodup)
    (h : ∀ field ∈ fields, field.1.Joined ∧ field.2.Readable) : (ofFields fields).Readable := by
  have hmem (field : Text × Value) (hfield : field ∈ fields.filter fun field => !field.2.isBlankField) :=
    h field (List.mem_filter.1 hfield).1
  have hnamed : Named (fields.filter fun field => !field.2.isBlankField) :=
    ⟨hnames.sublist (List.filter_sublist.map Prod.fst), fun field hfield => (hmem field hfield).1⟩
  exact readable_object.2 ⟨hnamed, fun field hfield => (hmem field hfield).2⟩

theorem Value.readable_of_isBlankField {v : Value} (h : v.isBlankField = true) : v.Readable := by
  cases v with
  | null => trivial
  | array items =>
      obtain rfl := List.isEmpty_iff.1 h
      exact readable_array.2 (List.forall_mem_nil _)
  | object members =>
      obtain rfl := List.isEmpty_iff.1 h
      exact readable_object.2 ⟨⟨.nil, List.forall_mem_nil _⟩, List.forall_mem_nil _⟩
  | _ => cases h

theorem Value.readable_of_ofFields {fields : List (Text × Value)} (h : (ofFields fields).Readable) :
    ∀ field ∈ fields, field.2.Readable := by
  intro field hfield
  cases hblank : field.2.isBlankField with
  | true => exact readable_of_isBlankField hblank
  | false => exact (readable_object.1 h).2 field (List.mem_filter.2 ⟨hfield, by simp [hblank]⟩)

structure Endpoint.Legible (e : Endpoint) : Prop where
  serviceName : e.serviceName.Readable
  ipv4 : e.ipv4.Readable
  ipv6 : e.ipv6.Readable

theorem Value.IsOptionalInt.readable {v : Value} (h : v.IsOptionalInt) : v.Readable := by
  cases h <;> exact trivial

theorem Endpoint.joined_of_mem_fields (e : Endpoint) : ∀ field ∈ e.fields, field.1.Joined := by
  simp only [fields, List.forall_mem_cons]
  decide

theorem Endpoint.readable_toValue {e : Endpoint} (h : e.Regular) (hlegible : e.Legible) :
    e.toValue.Readable := by
  have hvalues : ∀ field ∈ e.fields, field.2.Readable := by
    simp only [fields, List.forall_mem_cons, List.not_mem_nil, false_implies, implies_true, and_true]
    exact ⟨hlegible.serviceName, hlegible.ipv4, hlegible.ipv6, h.port.readable⟩
  exact Value.readable_ofFields e.nodup_fields fun field hfield =>
    ⟨e.joined_of_mem_fields field hfield, hvalues field hfield⟩

theorem Endpoint.readable_optionToValue {e : Option Endpoint} (h : ∀ x ∈ e, x.Regular ∧ x.Legible) :
    (optionToValue e).Readable := by
  cases e with
  | none => exact trivial
  | some e => exact readable_toValue (h e rfl).1 (h e rfl).2

theorem Endpoint.legible_of_optionToValue {e : Option Endpoint} (h : (optionToValue e).Readable) :
    ∀ x ∈ e, x.Legible := by
  rintro x rfl
  have hfield : ∀ field ∈ x.fields, field.2.Readable := Value.readable_of_ofFields h
  simp only [fields, List.forall_mem_cons, List.not_mem_nil, false_implies, implies_true, and_true]
    at hfield
  exact ⟨hfield.1, hfield.2.1, hfield.2.2.1⟩

theorem Annotation.readable_toValue {a : Annotation} (typed : a.WellTyped) (hvalue : a.value.Readable) :
    a.toValue.Readable := by
  obtain ⟨n, hn⟩ := typed.timestamp
  refine Value.readable_ofFields (by simp [Table.keys]) ?_
  simp only [List.forall_mem_cons, List.not_mem_nil, false_implies, implies_true, and_true, hn]
  exact ⟨⟨by decide, trivial⟩, by decide, hvalue⟩

theorem Annotation.readable_value {a : Annotation} (h : a.toValue.Readable) : a.value.Readable :=
  Value.readable_of_ofFields h ("value", a.value) (by simp)

namespace Span

/-- A span for whose fields text can stand. -/
structure Legible (s : Span) : Prop where
  traceId : s.traceId.Readable
  id : s.id.Readable
  parentId : s.parentId.Readable
  kind : s.kind.Readable
  name : s.name.Readable
  localEndpoint : ∀ e ∈ s.localEndpoint, e.Legible
  remoteEndpoint : ∀ e ∈ s.remoteEndpoint, e.Legible
  annotations : ∀ a ∈ s.annotations, a.value.Readable
  tags : (Value.object s.tags).Readable
  debug : s.debug.Readable
  shared : s.shared.Readable

theorem joined_of_mem_fields (s : Span) : ∀ field ∈ s.fields, field.1.Joined := by
  simp only [fields, List.forall_mem_cons]
  decide

theorem readable_toValue {s : Span} (h : s.Regular) (hlegible : s.Legible) : s.toValue.Readable := by
  have hannotations : (Value.array (s.annotations.map Annotation.toValue)).Readable := by
    refine Value.readable_array.2 fun v hv => ?_
    obtain ⟨a, ha, rfl⟩ := List.mem_map.1 hv
    exact Annotation.readable_toValue (h.annotations a ha) (hlegible.annotations a ha)
  have hvalues : ∀ field ∈ s.fields, field.2.Readable := by
    simp only [fields, List.forall_mem_cons, List.not_mem_nil, false_implies, implies_true, and_true]
    exact ⟨hlegible.traceId, hlegible.id, hlegible.parentId, hlegible.kind, hlegible.name,
      h.timestamp.readable, h.duration.readable,
      Endpoint.readable_optionToValue fun e he => ⟨h.localEndpoint e he, hlegible.localEndpoint e he⟩,
      Endpoint.readable_optionToValue fun e he => ⟨h.remoteEndpoint e he, hlegible.remoteEndpoint e he⟩,
      hannotations, hlegible.tags, hlegible.debug, hlegible.shared⟩
  exact Value.readable_ofFields s.nodup_fields fun field hfield =>
    ⟨s.joined_of_mem_fields field hfield, hvalues field hfield⟩

theorem legible_of_toValue {s : Span} (h : s.toValue.Readable) : s.Legible := by
  have hfield : ∀ field ∈ s.fields, field.2.Readable := Value.readable_of_ofFields h
  simp only [fields, List.forall_mem_cons, List.not_mem_nil, false_implies, implies_true, and_true]
    at hfield
  obtain ⟨htraceId, hid, hparentId, hkind, hname, -, -, hlocal, hremote, hannotations, htags, hdebug,
    hshared⟩ := hfield
  have hvalues : ∀ a ∈ s.annotations, a.toValue.Readable :=
    List.forall_mem_map.1 (Value.readable_array.1 hannotations)
  exact
    { traceId := htraceId
      id := hid
      parentId := hparentId
      kind := hkind
      name := hname
      localEndpoint := Endpoint.legible_of_optionToValue hlocal
      remoteEndpoint := Endpoint.legible_of_optionToValue hremote
      annotations := fun a ha => Annotation.readable_value (hvalues a ha)
      tags := htags
      debug := hdebug
      shared := hshared }

theorem readItems_toValue {spans : List Span} (h : ∀ s ∈ spans, s.Regular) :
    readItems (spans.map toValue) = .ok (spans.map settled) := by
  induction spans with
  | nil => rfl
  | cons s spans ih =>
      have hs : readFields ⟨s.fields.filter fun field => !field.2.isBlankField⟩ = .ok s.settled :=
        read_toValue (h s List.mem_cons_self)
      have hrest := ih fun t ht => h t (List.mem_cons_of_mem s ht)
      have htoValue : s.toValue = .object (s.fields.filter fun field => !field.2.isBlankField) := rfl
      rw [List.map_cons, htoValue, readItems, hs, hrest]
      rfl

theorem readLine_writeList {spans : List Span} (h : ∀ s ∈ spans, s.Regular ∧ s.Legible) :
    readLine (writeList spans) = .ok (spans.map settled) := by
  have hreadable : (Value.array (spans.map toValue)).Readable := by
    refine Value.readable_array.2 fun v hv => ?_
    obtain ⟨s, hs, rfl⟩ := List.mem_map.1 hv
    exact readable_toValue (h s hs).1 (h s hs).2
  rw [readLine, writeList, Json.read_write hreadable]
  exact readItems_toValue fun s hs => (h s hs).1

end Span

end SpanForest
