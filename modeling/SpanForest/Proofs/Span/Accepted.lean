import SpanForest.Proofs.Json.Accepted
import SpanForest.Proofs.Running
import SpanForest.Proofs.Span.NormalId
import SpanForest.Proofs.Span.ReadBack
import SpanForest.Span.Stream

/-!
Spans that reading gives. Each is read from an object of the line, field by field: ids and service
names are in their one form, annotations are in order, and each other field holds what the object
had in it.
-/

namespace SpanForest

theorem Json.readable_iff_read_write {v : Value} (hnan : v.NaNFree) :
    v.Readable ↔ read (write v) = .ok v :=
  ⟨read_write, fun h => readable_of_read h hnan⟩

namespace Value

theorem ifSet_ifSet (v : Value) : v.ifSet.ifSet = v.ifSet := by
  by_cases h : v.isSet = true
  · have hset : v.ifSet = v := orElse_of_isSet h
    rw [hset, hset]
  · have hnull : v.ifSet = .null := orElse_of_not_isSet (Bool.eq_false_iff.2 h)
    rw [hnull]
    rfl

theorem Readable.ifSet {v : Value} (h : v.Readable) : v.ifSet.Readable := by
  unfold Value.ifSet orElse
  split
  · exact h
  · trivial

theorem isSet_of_ifSet_eq {v : Value} (h : v.ifSet = v) : v = .null ∨ v.isSet = true := by
  unfold Value.ifSet orElse at h
  split at h
  · next hset => exact .inr hset
  · exact .inl h.symm

theorem isOptionalInt_of_optionalInteger {v w : Value} (h : v.optionalInteger = .ok w) :
    w.IsOptionalInt := by
  unfold optionalInteger at h
  split at h
  · split at h
    · cases h
    · exact Except.ok.inj h ▸ .present _
  · exact Except.ok.inj h ▸ .absent

theorem quoted_ne_nil (v : Value) : v.quoted ≠ [] := by
  cases v with
  | null => exact List.cons_ne_nil _ _
  | bool b => cases b <;> exact List.cons_ne_nil _ _
  | int n =>
      cases n with
      | ofNat n => exact Json.digits_ne_nil n
      | negSucc n => exact List.cons_ne_nil _ _
  | float x =>
      cases x with
      | nan => exact List.cons_ne_nil _ _
      | infinite negative => cases negative <;> exact List.cons_ne_nil _ _
      | finite negative significand exponent =>
          obtain ⟨c, cs, htext, -⟩ := Json.exists_cons_magnitudeText significand exponent
          refine List.append_ne_nil_of_right_ne_nil _ ?_
          rw [htext]
          exact List.cons_ne_nil c cs
  | string s => exact List.append_ne_nil_of_right_ne_nil _ (List.cons_ne_nil _ _)
  | array items => exact List.cons_ne_nil _ _
  | object members => exact List.cons_ne_nil _ _

theorem text_ne_nil {v : Value} (h : v.isSet = true) : v.text ≠ [] := by
  unfold text
  split
  · simpa [isSet] using h
  · exact fun hempty => v.quoted_ne_nil (List.map_eq_nil_iff.1 hempty)

theorem Readable.joined_text {v : Value} (h : v.Readable) : v.text.Joined := by
  cases v with
  | string t => exact h
  | _ => exact Text.joined_ofChars _

end Value

namespace Fields

variable {P : Value → Prop} {f : Fields}

theorem every_get (hnull : P .null) (h : (Value.object f.members).Every P) (name : Text) :
    (f.get name).Every P := by
  unfold Fields.get
  cases hfind : Table.find? name f.members with
  | none => exact hnull
  | some v => exact (Value.every_object.1 h).2 _ (Table.mem_of_find? hfind)

theorem every_either (hnull : P .null) (h : (Value.object f.members).Every P) (name other : Text) :
    (f.either name other).Every P := by
  unfold Fields.either
  split
  · exact every_get hnull h other
  · exact every_get hnull h name

theorem every_of_require (h : (Value.object f.members).Every P) {name : String} {v : Value}
    (hv : f.require name = .ok v) : v.Every P := by
  unfold require at hv
  split at hv
  · next hfind => exact Except.ok.inj hv ▸ (Value.every_object.1 h).2 _ (Table.mem_of_find? hfind)
  · cases hv

end Fields

theorem Id.joined_normal {t : Text} (h : t.Joined) : (normal t).Joined := by
  unfold normal
  split
  · exact .nil
  · rw [pad, ← List.map_replicate]
    exact Text.joined_ofChars_append _ h.trim.lower

theorem Id.joined_of_ofValue {v : Value} (hv : v.Readable) {id : Text} (h : ofValue v = .ok id) :
    id.Joined := by
  unfold ofValue at h
  split at h
  · split at h
    · exact Except.ok.inj h ▸ joined_normal hv
    · cases h
  · exact Except.ok.inj h ▸ .nil

namespace Endpoint

structure ReadFrom (f : Fields) (e : Endpoint) : Prop where
  serviceName : e.serviceName = if (f.either "serviceName" "service_name").isSet then
    .string (Text.lower (f.either "serviceName" "service_name").text) else .null
  ipv4 : e.ipv4 = (f.get "ipv4").ifSet
  ipv6 : e.ipv6 = (f.get "ipv6").ifSet
  port : (f.get "port").optionalInteger = .ok e.port
  notEmpty : e ≠ {}

theorem readFrom_of_read {v : Value} {e : Endpoint} (h : read v = .ok (some e)) :
    ∃ members, v = .object members ∧ ReadFrom ⟨members⟩ e := by
  unfold read at h
  split at h
  · next members =>
    dsimp only at h
    split at h
    · cases h
    · next port hport =>
      obtain ⟨hne, hsome⟩ := Option.ite_none_left_eq_some.1 (Except.ok.inj h)
      obtain rfl := Option.some.inj hsome
      exact ⟨members, rfl,
        { serviceName := rfl, ipv4 := rfl, ipv6 := rfl, port := hport, notEmpty := hne }⟩
  · cases h

theorem regular_of_read {v : Value} {e : Endpoint} (h : read v = .ok (some e)) : e.Regular := by
  obtain ⟨members, -, hfields⟩ := readFrom_of_read h
  exact
    { serviceName := by
        rw [hfields.serviceName]
        split
        · next hset =>
          exact .string ⟨Text.lower_ne_nil (Value.text_ne_nil hset), Text.lower_lower _⟩
        · exact .null
      ipv4 := by rw [hfields.ipv4, Value.ifSet_ifSet]
      ipv6 := by rw [hfields.ipv6, Value.ifSet_ifSet]
      port := Value.isOptionalInt_of_optionalInteger hfields.port
      notEmpty := hfields.notEmpty }

theorem legible_of_read {v : Value} (hv : v.Readable) {e : Endpoint} (h : read v = .ok (some e)) :
    e.Legible := by
  obtain ⟨members, rfl, hfields⟩ := readFrom_of_read h
  have hget (name : Text) := Value.Readable.ifSet (Fields.every_get (f := ⟨members⟩) trivial hv name)
  have hname : (Fields.either ⟨members⟩ "serviceName" "service_name").Readable :=
    Fields.every_either (f := ⟨members⟩) trivial hv _ _
  exact
    { serviceName := by
        rw [hfields.serviceName]
        split
        · exact hname.joined_text.lower
        · trivial
      ipv4 := hfields.ipv4 ▸ hget "ipv4"
      ipv6 := hfields.ipv6 ▸ hget "ipv6" }

end Endpoint

namespace Annotation

theorem wellTyped_of_read {fields : Fields} {a : Annotation} (h : read fields = .ok a) :
    a.WellTyped := by
  obtain ⟨timestamp, -, h⟩ := exists_of_bind_ok h
  obtain ⟨n, -, h⟩ := exists_of_bind_ok h
  obtain ⟨value, -, h⟩ := exists_of_bind_ok h
  obtain rfl := Except.ok.inj h
  exact ⟨⟨n, rfl⟩, ⟨value.text, rfl⟩⟩

theorem wellTyped_of_readItems {items : List Value} {as : List Annotation}
    (h : readItems items = .ok as) : ∀ a ∈ as, a.WellTyped := by
  fun_induction readItems items generalizing as with
  | case1 =>
      obtain rfl := Except.ok.inj h
      exact nofun
  | case2 members rest ih =>
      obtain ⟨a, ha, h⟩ := exists_of_bind_ok h
      obtain ⟨tail, htail, h⟩ := exists_of_bind_ok h
      obtain rfl := Except.ok.inj h
      exact List.forall_mem_cons.2 ⟨wellTyped_of_read ha, ih htail⟩
  | case3 item rest _ ih => exact ih h

theorem readable_of_read {fields : Fields} (hfields : (Value.object fields.members).Readable)
    {a : Annotation} (h : read fields = .ok a) : a.value.Readable := by
  obtain ⟨timestamp, -, h⟩ := exists_of_bind_ok h
  obtain ⟨n, -, h⟩ := exists_of_bind_ok h
  obtain ⟨value, hvalue, h⟩ := exists_of_bind_ok h
  obtain rfl := Except.ok.inj h
  have hreadable : value.Readable := Fields.every_of_require hfields hvalue
  exact hreadable.joined_text

theorem readable_of_readItems {items : List Value} (hitems : ∀ v ∈ items, v.Readable)
    {as : List Annotation} (h : readItems items = .ok as) : ∀ a ∈ as, a.value.Readable := by
  fun_induction readItems items generalizing as with
  | case1 =>
      obtain rfl := Except.ok.inj h
      exact nofun
  | case2 members rest ih =>
      obtain ⟨hmembers, hrest⟩ := List.forall_mem_cons.1 hitems
      obtain ⟨a, ha, h⟩ := exists_of_bind_ok h
      obtain ⟨tail, htail, h⟩ := exists_of_bind_ok h
      obtain rfl := Except.ok.inj h
      exact List.forall_mem_cons.2 ⟨readable_of_read hmembers ha, ih hrest htail⟩
  | case3 item rest _ ih => exact ih (List.forall_mem_cons.1 hitems).2 h

theorem readable_of_elements {v : Value} (hv : v.Readable) {items : List Value}
    (h : elements v = .ok items) : ∀ x ∈ items, x.Readable := by
  unfold elements at h
  split at h
  · split at h
    · exact Except.ok.inj h ▸ Value.readable_array.1 hv
    · exact Except.ok.inj h ▸ nofun
    · exact Except.ok.inj h ▸ nofun
    · cases h
  · exact Except.ok.inj h ▸ nofun

theorem inOrder_of_sort {as bs : List Annotation} (typed : ∀ a ∈ as, a.WellTyped)
    (h : sort as = .ok bs) : (∀ a ∈ bs, a.WellTyped) ∧ Sorting.InOrder sortKey bs := by
  rw [sort_eq typed] at h
  obtain rfl := Except.ok.inj h
  exact ⟨fun a ha => typed a (Sorting.mem_sortStable.1 ha), Sorting.inOrder_sortStable sortKey as⟩

end Annotation

namespace Span

structure ReadFrom (f : Fields) (s : Span) : Prop where
  traceId : ∃ t, s.traceId = .string t ∧ t ≠ [] ∧
    Id.ofValue (f.either "traceId" "trace_id") = .ok t
  id : ∃ v t, f.require "id" = .ok v ∧ s.id = .string t ∧ t ≠ [] ∧ Id.ofValue v = .ok t
  parentId : s.parentId.IsNullOrString fun t =>
    t ≠ [] ∧ Id.ofValue (f.either "parentId" "parent_id") = .ok t
  kind : s.kind = (f.get "kind").ifSet
  name : s.name = (f.get "name").ifSet
  timestamp : (f.get "timestamp").optionalInteger = .ok s.timestamp
  duration : (f.get "duration").optionalInteger = .ok s.duration
  localEndpoint : Endpoint.read (f.either "localEndpoint" "local_endpoint") = .ok s.localEndpoint
  remoteEndpoint : Endpoint.read (f.either "remoteEndpoint" "remote_endpoint") = .ok s.remoteEndpoint
  annotations : ∃ items found, Annotation.elements (f.get "annotations") = .ok items ∧
    Annotation.readItems items = .ok found ∧ Annotation.sort found = .ok s.annotations
  tags : s.tags = readTags (f.get "tags")
  debug : s.debug = f.get "debug"
  shared : s.shared = f.get "shared"

theorem readFrom_of_readFields {f : Fields} {s : Span} (h : readFields f = .ok s) : ReadFrom f s := by
  obtain ⟨traceId, htrace, h⟩ := exists_of_bind_ok h
  obtain ⟨given, hgiven, h⟩ := exists_of_bind_ok h
  obtain ⟨id, hid, h⟩ := exists_of_bind_ok h
  split at h
  · cases h
  · next htraceNe =>
    split at h
    · cases h
    · next hidNe =>
      obtain ⟨parentId, hparent, h⟩ := exists_of_bind_ok h
      obtain ⟨items, hitems, h⟩ := exists_of_bind_ok h
      obtain ⟨found, hfound, h⟩ := exists_of_bind_ok h
      obtain ⟨timestamp, htimestamp, h⟩ := exists_of_bind_ok h
      obtain ⟨duration, hduration, h⟩ := exists_of_bind_ok h
      obtain ⟨localEndpoint, hlocal, h⟩ := exists_of_bind_ok h
      obtain ⟨remoteEndpoint, hremote, h⟩ := exists_of_bind_ok h
      obtain ⟨annotations, hsort, h⟩ := exists_of_bind_ok h
      obtain rfl := Except.ok.inj h
      exact
        { traceId := ⟨traceId, rfl, htraceNe, htrace⟩
          id := ⟨given, id, hgiven, rfl, hidNe, hid⟩
          parentId := by
            dsimp only
            split
            · exact .null
            · next hne => exact .string ⟨hne, hparent⟩
          kind := rfl
          name := rfl
          timestamp := htimestamp
          duration := hduration
          localEndpoint := hlocal
          remoteEndpoint := hremote
          annotations := ⟨items, found, hitems, hfound, hsort⟩
          tags := rfl
          debug := rfl
          shared := rfl }

theorem tags_of_readTags {v : Value} (hv : v.Sound) :
    (∀ t ∈ readTags v, ∃ text, t.2 = .string text) ∧ (Table.keys (readTags v)).Nodup := by
  cases v with
  | object members =>
      constructor
      · intro t ht
        obtain ⟨entry, -, rfl⟩ := List.mem_map.1 ht
        exact ⟨_, rfl⟩
      · rw [Table.keys, readTags, List.map_map]
        exact (Value.sound_object.1 hv).1.distinct
  | _ => exact ⟨nofun, .nil⟩

theorem readable_readTags {v : Value} (hv : v.Readable) : (Value.object (readTags v)).Readable := by
  cases v with
  | object members =>
      obtain ⟨hnamed, hvalues⟩ := Value.readable_object.1 hv
      refine Value.readable_object.2 ⟨⟨?_, ?_⟩, ?_⟩
      · rw [Table.keys, readTags, List.map_map]
        exact hnamed.distinct
      · exact List.forall_mem_map.2 hnamed.joined
      · exact List.forall_mem_map.2 fun entry hentry => (hvalues entry hentry).joined_text
  | _ => exact Value.readable_object.2 ⟨⟨.nil, nofun⟩, nofun⟩

section

variable {f : Fields} {s : Span} (h : ReadFrom f s)
include h

theorem ReadFrom.regular (hsound : (Value.object f.members).Sound) : s.Regular := by
  obtain ⟨traceId, htrace, htraceNe, htraceOf⟩ := h.traceId
  obtain ⟨given, id, -, hid, hidNe, hidOf⟩ := h.id
  obtain ⟨items, found, -, hfound, hsort⟩ := h.annotations
  have hfoundTyped := Annotation.wellTyped_of_readItems hfound
  obtain ⟨hannotations, horder⟩ := Annotation.inOrder_of_sort hfoundTyped hsort
  obtain ⟨htags, htagNames⟩ := tags_of_readTags (Fields.every_get trivial hsound "tags")
  have hlocal := h.localEndpoint
  have hremote := h.remoteEndpoint
  exact
    { traceId := ⟨traceId, htrace, htraceNe, Id.normal_of_ofValue htraceOf⟩
      id := ⟨id, hid, hidNe, Id.normal_of_ofValue hidOf⟩
      parentId := h.parentId.imp fun t ht => ⟨ht.1, Id.normal_of_ofValue ht.2⟩
      kind := by rw [h.kind, Value.ifSet_ifSet]
      name := by rw [h.name, Value.ifSet_ifSet]
      timestamp := Value.isOptionalInt_of_optionalInteger h.timestamp
      duration := Value.isOptionalInt_of_optionalInteger h.duration
      localEndpoint e he := by
        rw [Option.mem_def.1 he] at hlocal
        exact Endpoint.regular_of_read hlocal
      remoteEndpoint e he := by
        rw [Option.mem_def.1 he] at hremote
        exact Endpoint.regular_of_read hremote
      annotations := hannotations
      inOrder := horder
      tags := by rwa [h.tags]
      tagNames := by rwa [h.tags] }

theorem ReadFrom.legible (hreadable : (Value.object f.members).Readable) : s.Legible := by
  have hget (name : Text) : (f.get name).Readable := Fields.every_get trivial hreadable name
  have heither (name other : Text) : (f.either name other).Readable :=
    Fields.every_either trivial hreadable name other
  obtain ⟨traceId, htrace, -, htraceOf⟩ := h.traceId
  obtain ⟨given, id, hgiven, hid, -, hidOf⟩ := h.id
  obtain ⟨items, found, hitems, hfound, hsort⟩ := h.annotations
  have hlocal := h.localEndpoint
  have hremote := h.remoteEndpoint
  exact
    { traceId := htrace ▸ Id.joined_of_ofValue (heither _ _) htraceOf
      id := hid ▸ Id.joined_of_ofValue (Fields.every_of_require hreadable hgiven) hidOf
      parentId := by
        generalize hparent : s.parentId = parentId
        cases hparent ▸ h.parentId with
        | null => trivial
        | string ht => exact Id.joined_of_ofValue (heither _ _) ht.2
      kind := h.kind ▸ (hget "kind").ifSet
      name := h.name ▸ (hget "name").ifSet
      localEndpoint e he := by
        rw [Option.mem_def.1 he] at hlocal
        exact Endpoint.legible_of_read (heither _ _) hlocal
      remoteEndpoint e he := by
        rw [Option.mem_def.1 he] at hremote
        exact Endpoint.legible_of_read (heither _ _) hremote
      annotations a ha := by
        rw [ Annotation.sort_eq <| Annotation.wellTyped_of_readItems hfound] at hsort
        rw [← Except.ok.inj hsort, Sorting.mem_sortStable] at ha
        have hreadableItems := Annotation.readable_of_elements (hget "annotations") hitems
        exact Annotation.readable_of_readItems hreadableItems hfound a ha
      tags := h.tags ▸ readable_readTags (hget "tags")
      debug := h.debug ▸ hget "debug"
      shared := h.shared ▸ hget "shared" }

end

theorem readFrom_of_mem_readItems {items : List Value} {spans : List Span}
    (h : readItems items = .ok spans) :
    ∀ s ∈ spans, ∃ members, Value.object members ∈ items ∧ ReadFrom ⟨members⟩ s := by
  have hcons {item : Value} {rest : List Value} {ss : List Span}
      (hrest : ∀ s ∈ ss, ∃ members, Value.object members ∈ rest ∧ ReadFrom ⟨members⟩ s) :
      ∀ s ∈ ss, ∃ members, Value.object members ∈ item :: rest ∧ ReadFrom ⟨members⟩ s := by
    intro s hs
    obtain ⟨members, hmem, hfrom⟩ := hrest s hs
    exact ⟨members, List.mem_cons_of_mem item hmem, hfrom⟩
  fun_induction readItems items generalizing spans with
  | case1 =>
      obtain rfl := Except.ok.inj h
      exact nofun
  | case2 members rest s hs ss hss ih =>
      obtain rfl := Except.ok.inj h
      exact List.forall_mem_cons.2
        ⟨⟨members, List.mem_cons_self, readFrom_of_readFields hs⟩, hcons (ih hss)⟩
  | case3 => cases h
  | case4 members rest e he hmalformed ih => exact hcons (ih h)
  | case5 => cases h
  | case6 item rest hitem ih => exact hcons (ih h)

/-- The elements of a line: those of an array, or the one object. -/
def lineElements (line : List Char) : Except Fault (List Value) :=
  match Json.read line with
  | .error e => .error e
  | .ok (.object members) => .ok [.object members]
  | .ok (.array items) => .ok items
  | .ok _ => .error .notSpans

theorem readLine_eq (line : List Char) : readLine line = lineElements line >>= readItems := by
  unfold readLine lineElements
  cases Json.read line with
  | error e => rfl
  | ok v => cases v <;> rfl

theorem every_of_lineElements {line : List Char} {v : Value} (hvalue : Json.read line = .ok v)
    {P : Value → Prop} (hv : v.Every P) {items : List Value} (h : lineElements line = .ok items) :
    ∀ x ∈ items, x.Every P := by
  unfold lineElements at h
  rw [hvalue] at h
  cases v with
  | object members => exact Except.ok.inj h ▸ List.forall_mem_singleton.2 hv
  | array items => exact Except.ok.inj h ▸ (Value.every_array.1 hv).2
  | _ => cases h

theorem readFrom_of_readLine {line : List Char} {v : Value} (hvalue : Json.read line = .ok v)
    {P : Value → Prop} (hv : v.Every P) {spans : List Span} (h : readLine line = .ok spans) :
    ∀ s ∈ spans, ∃ members, (Value.object members).Every P ∧ ReadFrom ⟨members⟩ s := by
  rw [readLine_eq] at h
  obtain ⟨items, hitems, h⟩ := exists_of_bind_ok h
  intro s hs
  obtain ⟨members, hmem, hfrom⟩ := readFrom_of_mem_readItems h s hs
  exact ⟨members, every_of_lineElements hvalue hv hitems _ hmem, hfrom⟩

theorem regular_of_mem_readLine {line : List Char} {spans : List Span}
    (h : readLine line = .ok spans) {s : Span} (hs : s ∈ spans) : s.Regular := by
  cases hvalue : Json.read line with
  | error e =>
      rw [readLine, hvalue] at h
      cases h
  | ok v =>
      obtain ⟨members, hsound, hfrom⟩ := readFrom_of_readLine hvalue (Json.sound_of_read hvalue) h s hs
      exact hfrom.regular hsound

theorem regular_of_readLine {line : List Char} {v : Value} (hvalue : Json.read line = .ok v)
    (hv : v.Readable) {spans : List Span} (h : readLine line = .ok spans) :
    ∀ s ∈ spans, s.Regular ∧ s.Legible := by
  intro s hs
  obtain ⟨members, hmembers, hfrom⟩ := readFrom_of_readLine hvalue hv h s hs
  exact ⟨regular_of_mem_readLine h hs, hfrom.legible hmembers⟩

/-- Text can stand for a span without numbers that are none exactly if JSON gives it back as it was. -/
theorem legible_iff_read_write {s : Span} (h : s.Regular) (hnan : s.toValue.NaNFree) :
    s.Legible ↔ Json.read (Json.write s.toValue) = .ok s.toValue := by
  rw [← Json.readable_iff_read_write hnan]
  exact ⟨readable_toValue h, legible_of_toValue⟩

end Span

theorem Reading.forall_prepend {P : Span → Prop} {here spans : List Span} {warnings : List LineWarning}
    {r : Reading} (hhere : ∀ s ∈ here, P s) (hothers : ∀ ss, r.outcome = .ok ss → ∀ s ∈ ss, P s)
    (h : (r.prepend here warnings).outcome = .ok spans) : ∀ s ∈ spans, P s := by
  cases hr : r.outcome with
  | error e =>
      rw [prepend, hr] at h
      cases h
  | ok ss =>
      rw [prepend, hr] at h
      exact Except.ok.inj h ▸ List.forall_mem_append.2 ⟨hhere, hothers ss hr⟩

theorem regular_of_readLines {fault : Option Fault} {number : Nat} {lines : List (List Char)}
    {spans : List Span} (h : (readLines (atEnd fault) number lines).outcome = .ok spans) :
    ∀ s ∈ spans, s.Regular := by
  induction lines generalizing number spans with
  | nil =>
      cases fault with
      | none =>
          obtain rfl := Except.ok.inj h
          exact nofun
      | some e => cases h
  | cons line rest ih =>
      unfold readLines at h
      dsimp only at h
      split at h
      · exact ih h
      · split at h
        · next hline =>
          exact Reading.forall_prepend (fun s hs => Span.regular_of_mem_readLine hline hs) (fun _ => ih) h
        · split at h
          · exact Reading.forall_prepend (List.forall_mem_nil _) (fun _ => ih) h
          · cases h

end SpanForest
