import SpanForest.Proofs.Span.Accepted

/-!
Spans in normal form: ids in full, numbers and texts where numbers and texts belong, and annotations
in order. Each span that a line is read as is in normal form, whatever values its fields had. Not
covered: addresses and flags, which are kept as they come.
-/

namespace SpanForest

namespace Id

/-- An id in full: nothing is left to trim, to lower or to pad. -/
structure Full (t : Text) : Prop where
  nonempty : t ≠ []
  normal : Id.normal t = t
  length : t.length = narrow ∨ wide ≤ t.length

theorem length_normal {s : Text} (h : s ≠ []) :
    (normal s).length = narrow ∨ wide ≤ (normal s).length := by
  have hwidth := width_cases (Text.lower (Text.trim s)).length
  rw [normal, if_neg h, length_pad, narrow, wide]
  omega

theorem full_of_normal {t : Text} (hne : t ≠ []) (hnormal : normal t = t) : Full t where
  nonempty := hne
  normal := hnormal
  length := by
    have hlength := length_normal hne
    rwa [hnormal] at hlength

end Id

namespace Span

/-- A span in normal form. An endpoint of it is `Regular`: it sets something, its service name is in
lower case and its port is a number. -/
structure Normal (s : Span) : Prop where
  traceId : ∃ t, s.traceId = .string t ∧ Id.Full t
  id : ∃ t, s.id = .string t ∧ Id.Full t
  parentId : s.parentId.IsNullOrString Id.Full
  timestamp : s.timestamp.IsOptionalInt
  duration : s.duration.IsOptionalInt
  localEndpoint : ∀ e ∈ s.localEndpoint, e.Regular
  remoteEndpoint : ∀ e ∈ s.remoteEndpoint, e.Regular
  annotations : ∀ a ∈ s.annotations, a.WellTyped
  inOrder : s.annotations.Pairwise fun a b => a.sortKey ≤ b.sortKey
  tags : ∀ t ∈ s.tags, ∃ text, t.2 = .string text
  tagNames : (Table.keys s.tags).Nodup
  kind : s.kind = .null ∨ s.kind.isSet = true
  name : s.name = .null ∨ s.name.isSet = true

theorem Regular.normal {s : Span} (h : s.Regular) : s.Normal := by
  obtain ⟨traceId, htrace, htraceNe, htraceNormal⟩ := h.traceId
  obtain ⟨id, hid, hidNe, hidNormal⟩ := h.id
  exact
    { traceId := ⟨traceId, htrace, Id.full_of_normal htraceNe htraceNormal⟩
      id := ⟨id, hid, Id.full_of_normal hidNe hidNormal⟩
      parentId := h.parentId.imp fun _ ht => Id.full_of_normal ht.1 ht.2
      timestamp := h.timestamp
      duration := h.duration
      localEndpoint := h.localEndpoint
      remoteEndpoint := h.remoteEndpoint
      annotations := h.annotations
      inOrder := h.inOrder
      tags := h.tags
      tagNames := h.tagNames
      kind := Value.isSet_of_ifSet_eq h.kind
      name := Value.isSet_of_ifSet_eq h.name }

/-- Each span of a line is in normal form. -/
theorem readLine_normal {line : List Char} {spans : List Span} (h : readLine line = .ok spans) :
    ∀ s ∈ spans, s.Normal := by
  intro s hs
  have hregular : s.Regular := regular_of_mem_readLine h hs
  exact hregular.normal

def strayLine : List Char :=
  "[\x7b\"trace_id\":\" \\u0130A\",\"id\":\"  \",\"kind\":NaN,\"name\":[5],".toList ++
  "\"parentId\":\"0123456789abcdef0\",\"timestamp\":\"7\",".toList ++
  "\"annotations\":[\x7b\"timestamp\":2,\"value\":null\x7d,9,".toList ++
  "\x7b\"timestamp\":true,\"value\":[]\x7d],\"tags\":\x7b\"a\":true\x7d,".toList ++
  "\"localEndpoint\":\x7b\"serviceName\":-0.5,\"port\":\"80\"\x7d,".toList ++
  "\"remoteEndpoint\":\x7b\"ipv4\":\"\"\x7d\x7d,5,\x7b\"id\":\"1\"\x7d]".toList

def straySpan : Span :=
  { traceId := .string "0000000000000i̇a"
    id := .string "0000000000000000"
    parentId := .string "0000000000000000123456789abcdef0"
    kind := .float .nan
    name := .array [.int 5]
    timestamp := .int 7
    localEndpoint := some { serviceName := .string "-0.5", port := .int 80 }
    annotations := [⟨.int 1, .string "[]"⟩, ⟨.int 2, .string "None"⟩]
    tags := [("a", .string "True")] }

theorem readLine_strayLine : readLine strayLine = .ok [straySpan] :=
  eq_ok_of_toOption (by decide +kernel)

theorem normal_straySpan : readLine strayLine = .ok [straySpan] ∧ straySpan.Normal :=
  ⟨readLine_strayLine, readLine_normal readLine_strayLine straySpan List.mem_cons_self⟩

end Span

end SpanForest
