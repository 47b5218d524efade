import SpanForest.Proofs.Span.Accepted

/-!
Spans that were read, written and read again. All comes back that the writer writes and the reader
keeps; a number that is zero is written and not kept, an empty array or object as a flag is kept and
not written. A line comes back the same exactly if no span of it has one of these.
-/

namespace SpanForest

namespace Value

theorem same_float {x : Binary64} (h : x.Canonical) : same (.float x) (.float x) = true := by
  cases x with
  | nan => cases h
  | infinite negative => simp [same, quantity?, Binary64.quantity, Quantity.same]
  | finite negative significand exponent =>
      simp [same, quantity?, Binary64.quantity, Quantity.same, Quantity.align_self]

theorem sameMembers_of_find? {xs ys : List (Text × Value)}
    (h : ∀ x ∈ xs, Table.find? x.1 ys = some x.2 ∧ same x.2 x.2 = true) :
    sameMembers xs ys = true := by
  induction xs with
  | nil => rfl
  | cons x xs ih =>
      obtain ⟨⟨hfind, hsame⟩, hrest⟩ := List.forall_mem_cons.1 h
      rw [sameMembers, hfind, ih hrest]
      simpa using hsame

mutual

theorem same_self : ∀ v : Value, v.Readable → same v v = true
  | .null, _ => rfl
  | .bool b, _ => by cases b <;> rfl
  | .int n, _ => by simp [same_int]
  | .float _, h => same_float h
  | .string s, _ => by simp [same_string]
  | .array items, h => by
      rw [same]
      exact sameItems_self items (readable_array.1 h)
  | .object members, h => by
      obtain ⟨hnames, hmembers⟩ := readable_object.1 h
      have hself := sameValues_self members hmembers
      rw [same, sameMembers_of_find? fun x hx => ⟨Table.find?_of_mem hnames.distinct hx, hself x hx⟩]
      simp

theorem sameItems_self : ∀ xs : List Value, (∀ x ∈ xs, x.Readable) → sameItems xs xs = true
  | [], _ => rfl
  | x :: xs, h => by
      obtain ⟨hx, hxs⟩ := List.forall_mem_cons.1 h
      rw [sameItems, same_self x hx, sameItems_self xs hxs]
      rfl

theorem sameValues_self : ∀ xs : List (Text × Value), (∀ x ∈ xs, x.2.Readable) →
    ∀ x ∈ xs, same x.2 x.2 = true
  | [], _ => nofun
  | (_, x) :: xs, h => by
      obtain ⟨hx, hxs⟩ := List.forall_mem_cons.1 h
      exact List.forall_mem_cons.2 ⟨same_self x hx, sameValues_self xs hxs⟩

end

theorem ne_zero_of_same {v : Value} (h : v.ifSet.same v = true) : v ≠ .int 0 := by
  rintro rfl
  exact absurd h (by decide)

theorem ne_empty_of_same {v : Value} (h : v.written.same v = true) :
    v ≠ .array [] ∧ v ≠ .object [] := by
  constructor
  · rintro rfl
    exact absurd h (by decide)
  · rintro rfl
    exact absurd h (by decide)

end Value

namespace Endpoint

theorem same_self {e : Endpoint} (h : e.Regular) (hlegible : e.Legible) : e.same e = true := by
  rw [same, Value.same_self _ hlegible.serviceName, Value.same_self _ hlegible.ipv4,
    Value.same_self _ hlegible.ipv6, Value.same_self _ h.port.readable]
  rfl

theorem sameOption_self {e : Option Endpoint} (h : ∀ x ∈ e, x.Regular ∧ x.Legible) :
    sameOption e e = true := by
  cases e with
  | none => rfl
  | some e => exact same_self (h e rfl).1 (h e rfl).2

theorem ne_zero_of_sameOption {e : Option Endpoint} (h : sameOption (e.bind settled) e = true) :
    ∀ x ∈ e, x.port ≠ .int 0 := by
  rintro x rfl
  rw [Option.bind_some, settled] at h
  split at h
  · cases h
  · rw [sameOption, same, Bool.and_eq_true] at h
    exact Value.ne_zero_of_same h.2

end Endpoint

theorem Annotation.sameList_self {as : List Annotation} (typed : ∀ a ∈ as, a.WellTyped) :
    sameList as as = true := by
  induction as with
  | nil => rfl
  | cons a as ih =>
      obtain ⟨⟨⟨n, hn⟩, s, hs⟩, hrest⟩ := List.forall_mem_cons.1 typed
      rw [sameList, ih hrest, same, hn, hs]
      simp [Value.same_int, Value.same_string]

namespace Span

theorem same_self {s : Span} (h : s.Regular) (hlegible : s.Legible) : s.same s = true := by
  obtain ⟨traceId, htraceId, -⟩ := h.traceId
  obtain ⟨id, hid, -⟩ := h.id
  rw [same, htraceId, hid, Value.same_self _ hlegible.parentId, Value.same_self _ hlegible.kind,
    Value.same_self _ hlegible.name, Value.same_self _ h.timestamp.readable,
    Value.same_self _ h.duration.readable,
    Endpoint.sameOption_self fun e he => ⟨h.localEndpoint e he, hlegible.localEndpoint e he⟩,
    Endpoint.sameOption_self fun e he => ⟨h.remoteEndpoint e he, hlegible.remoteEndpoint e he⟩,
    Annotation.sameList_self h.annotations, Value.same_self _ hlegible.tags,
    Value.same_self _ hlegible.debug, Value.same_self _ hlegible.shared]
  simp [Value.same_string]

theorem steady_of_same {s : Span} (h : s.settled.same s = true) : s.Steady := by
  simp only [same, settled, Bool.and_eq_true, and_assoc] at h
  obtain ⟨-, -, -, -, -, htimestamp, hduration, hlocal, hremote, -, -, hdebug, hshared⟩ := h
  exact ⟨Value.ne_zero_of_same htimestamp, Value.ne_zero_of_same hduration,
    Endpoint.ne_zero_of_sameOption hlocal, Endpoint.ne_zero_of_sameOption hremote,
    Value.ne_empty_of_same hdebug, Value.ne_empty_of_same hshared⟩

theorem same_settled_iff {s : Span} (h : s.Regular) (hlegible : s.Legible) :
    s.settled.same s = true ↔ s.Steady := by
  refine ⟨steady_of_same, fun hsteady => ?_⟩
  rw [hsteady.settled_eq h]
  exact same_self h hlegible

theorem sameList_map_iff {f : Span → Span} {P : Span → Prop} {spans : List Span}
    (h : ∀ s ∈ spans, (f s).same s = true ↔ P s) :
    sameList (spans.map f) spans = true ↔ ∀ s ∈ spans, P s := by
  induction spans with
  | nil => simp [sameList]
  | cons s spans ih =>
      obtain ⟨hs, hrest⟩ := List.forall_mem_cons.1 h
      rw [List.map_cons, sameList, Bool.and_eq_true, hs, ih hrest, List.forall_mem_cons]

/-- The spans of a line are read back settled, and so the same exactly if they were steady. -/
theorem readLine_rewritten {line : List Char} {v : Value} (hvalue : Json.read line = .ok v)
    (hnan : v.NaNFree) {spans : List Span} (hread : readLine line = .ok spans) :
    readLine (writeList spans) = .ok (spans.map settled) ∧
      (sameList (spans.map settled) spans = true ↔ ∀ s ∈ spans, s.Steady) := by
  have hspans := regular_of_readLine hvalue (Json.readable_of_read hvalue hnan) hread
  exact ⟨readLine_writeList hspans,
    sameList_map_iff fun s hs => same_settled_iff (hspans s hs).1 (hspans s hs).2⟩

/-- A span whose time is the numeral of zero. -/
def zeroLine : List Char := "\x7b\"traceId\":\"1\",\"id\":\"1\",\"timestamp\":\"0\"\x7d".toList

/-- The numeral is kept as the number zero and written as that, but a zero is not kept. -/
theorem not_same_rewritten_zeroLine :
    ∃ v spans again, Json.read zeroLine = .ok v ∧ v.NaNFree ∧ readLine zeroLine = .ok spans ∧
      readLine (writeList spans) = .ok again ∧ sameList again spans = false := by
  refine
    ⟨.object [("traceId", .string "1"), ("id", .string "1"), ("timestamp", .string "0")],
      [{ traceId := .string "0000000000000001", id := .string "0000000000000001",
          timestamp := .int 0 }],
      [{ traceId := .string "0000000000000001", id := .string "0000000000000001" }],
      eq_ok_of_toOption (by decide +kernel), ?_, eq_ok_of_toOption (by decide +kernel),
      eq_ok_of_toOption (by decide +kernel), by decide +kernel⟩
  simp [Value.NaNFree, Value.Every, Value.EveryMember]

def oddLine : List Char :=
  ("[\x7b\"trace_id\":\" 7B\",\"id\":\"1\",\"kind\":[\"x\"],\"timestamp\":\"0\",\"debug\":[]\x7d,5," ++
    "\x7b\"traceId\":\"7b\",\"id\":\"2\",\"name\":1.5,\"duration\":true,\"shared\":Infinity," ++
    "\"remoteEndpoint\":\x7b\"service_name\":\"Web\",\"port\":0\x7d\x7d]").toList

def oddValue : Value :=
  .array
    [.object
      [("trace_id", .string " 7B"), ("id", .string "1"), ("kind", .array [.string "x"]),
        ("timestamp", .string "0"), ("debug", .array [])],
    .int 5,
    .object
      [("traceId", .string "7b"), ("id", .string "2"),
        ("name", .float (.finite false 6755399441055744 (-52))), ("duration", .bool true),
        ("shared", .float (.infinite false)),
        ("remoteEndpoint", .object [("service_name", .string "Web"), ("port", .int 0)])]]

def oddSpans : List Span :=
  [{  traceId := .string "000000000000007b", id := .string "0000000000000001",
      kind := .array [.string "x"], timestamp := .int 0, debug := .array [] },
    { traceId := .string "000000000000007b", id := .string "0000000000000002",
      name := .float (.finite false 6755399441055744 (-52)), duration := .int 1,
      remoteEndpoint := some { serviceName := .string "web" }, shared := .float (.infinite false) }]

theorem readLine_rewritten_oddLine : Json.read oddLine = .ok oddValue ∧ oddValue.NaNFree ∧
    readLine oddLine = .ok oddSpans ∧
    readLine (writeList oddSpans) = .ok (oddSpans.map settled) ∧
    (sameList (oddSpans.map settled) oddSpans = true ↔ ∀ s ∈ oddSpans, s.Steady) := by
  have hvalue : Json.read oddLine = .ok oddValue := eq_ok_of_toOption (by decide +kernel)
  have hnan : oddValue.NaNFree := by
    simp [oddValue, Value.NaNFree, Value.Every, Value.EveryItem, Value.EveryMember]
  have hread : readLine oddLine = .ok oddSpans := eq_ok_of_toOption (by decide +kernel)
  exact ⟨hvalue, hnan, hread, readLine_rewritten hvalue hnan hread⟩

end Span

end SpanForest
