import SpanForest.Proofs.Json.Plain
import SpanForest.Proofs.Span.ReadBack
import SpanForest.Proofs.Text.Lines
import SpanForest.Span.Stream

/-!
Canonical spans: the form in which spans are written and read back without any change. A stream of
lines, each with a list of them, is read as the lists one after the other, and without a warning.
-/

namespace SpanForest

structure Endpoint.Canonical (e : Endpoint) : Prop where
  serviceName : e.serviceName.IsNullOrString fun s => s ≠ [] ∧ Text.lower s = s
  ipv4 : e.ipv4.IsNullOrString fun s => s ≠ []
  ipv6 : e.ipv6.IsNullOrString fun s => s ≠ []
  port : e.port.IsOptionalInt
  portNotZero : e.port ≠ .int 0
  notEmpty : e ≠ {}

/-- A span in the form that is kept: ids in their one form, nothing empty and no zero but in an
annotation. It is also such that JSON gives back what is written of it (`Span.legible_iff_read_write`):
two halves of a surrogate pair in a row are read as the character they make. -/
structure Span.Canonical (s : Span) : Prop where
  traceId : ∃ t, s.traceId = .string t ∧ t ≠ [] ∧ Id.normal t = t
  id : ∃ t, s.id = .string t ∧ t ≠ [] ∧ Id.normal t = t
  parentId : s.parentId.IsNullOrString fun t => t ≠ [] ∧ Id.normal t = t
  kind : s.kind.IsNullOrString fun t => t ≠ []
  name : s.name.IsNullOrString fun t => t ≠ []
  timestamp : s.timestamp.IsOptionalInt
  timestampNotZero : s.timestamp ≠ .int 0
  duration : s.duration.IsOptionalInt
  durationNotZero : s.duration ≠ .int 0
  localEndpoint : ∀ e ∈ s.localEndpoint, e.Canonical
  remoteEndpoint : ∀ e ∈ s.remoteEndpoint, e.Canonical
  annotations : ∀ a ∈ s.annotations, a.WellTyped
  inOrder : Sorting.InOrder Annotation.sortKey s.annotations
  tags : ∀ t ∈ s.tags, ∃ text, t.2 = .string text
  tagNames : (Table.keys s.tags).Nodup
  debug : s.debug.IsFlag
  shared : s.shared.IsFlag
  legible : s.Legible

namespace Value

theorem IsNullOrString.ifSet_eq {v : Value} (h : v.IsNullOrString fun s => s ≠ []) : v.ifSet = v := by
  cases h with
  | null => rfl
  | string hs => exact orElse_of_isSet (isSet_string hs)

theorem IsFlag.ne_empty {v : Value} (h : v.IsFlag) : v ≠ .array [] ∧ v ≠ .object [] := by
  cases h <;> exact ⟨nofun, nofun⟩

end Value

theorem Endpoint.Canonical.regular {e : Endpoint} (h : e.Canonical) : e.Regular where
  serviceName := h.serviceName
  ipv4 := h.ipv4.ifSet_eq
  ipv6 := h.ipv6.ifSet_eq
  port := h.port
  notEmpty := h.notEmpty

namespace Span.Canonical

variable {s : Span} (h : s.Canonical)
include h

theorem regular : s.Regular where
  traceId := h.traceId
  id := h.id
  parentId := h.parentId
  kind := h.kind.ifSet_eq
  name := h.name.ifSet_eq
  timestamp := h.timestamp
  duration := h.duration
  localEndpoint e he := (h.localEndpoint e he).regular
  remoteEndpoint e he := (h.remoteEndpoint e he).regular
  annotations := h.annotations
  inOrder := h.inOrder
  tags := h.tags
  tagNames := h.tagNames

theorem steady : s.Steady where
  timestamp := h.timestampNotZero
  duration := h.durationNotZero
  localEndpoint e he := (h.localEndpoint e he).portNotZero
  remoteEndpoint e he := (h.remoteEndpoint e he).portNotZero
  debug := h.debug.ne_empty
  shared := h.shared.ne_empty

end Span.Canonical

namespace Span

theorem legible_bare (t i : String) :
    ({ traceId := .string t, id := .string i } : Span).Legible where
  traceId := Text.joined_ofChars t.toList
  id := Text.joined_ofChars i.toList
  parentId := trivial
  kind := trivial
  name := trivial
  localEndpoint := nofun
  remoteEndpoint := nofun
  annotations := nofun
  tags := Value.readable_object.2 ⟨⟨.nil, nofun⟩, nofun⟩
  debug := trivial
  shared := trivial

theorem canonical_bare {t i : String} (ht : (t : Text) ≠ [] ∧ Id.normal t = t)
    (hi : (i : Text) ≠ [] ∧ Id.normal i = i) :
    ({ traceId := .string t, id := .string i } : Span).Canonical where
  traceId := ⟨t, rfl, ht⟩
  id := ⟨i, rfl, hi⟩
  parentId := .null
  kind := .null
  name := .null
  timestamp := .absent
  timestampNotZero := nofun
  duration := .absent
  durationNotZero := nofun
  localEndpoint := nofun
  remoteEndpoint := nofun
  annotations := nofun
  inOrder := .nil
  tags := nofun
  tagNames := .nil
  debug := .absent
  shared := .absent
  legible := legible_bare t i

theorem plain_writeList (spans : List Span) : Text.Plain (writeList spans) := Json.plain_write _

theorem trimList_writeList (spans : List Span) : Text.trimList (writeList spans) = writeList spans :=
  Text.trimList_of_ends (by decide) (by decide) _

theorem readLine_canonical {spans : List Span} (canonical : ∀ s ∈ spans, s.Canonical) :
    readLine (writeList spans) = .ok spans := by
  have hsettled : spans.map settled = spans := by
    refine (List.map_congr_left fun s hs => ?_).trans (List.map_id spans)
    exact (canonical s hs).steady.settled_eq (canonical s hs).regular
  rw [readLine_writeList fun s hs => ⟨(canonical s hs).regular, (canonical s hs).legible⟩, hsettled]

end Span

theorem readLines_canonical (number : Nat) {lists : List (List Span)}
    (canonical : ∀ spans ∈ lists, ∀ s ∈ spans, s.Canonical) :
    readLines (atEnd none) number (lists.map Span.writeList) = ⟨.ok lists.flatten, []⟩ := by
  induction lists generalizing number with
  | nil => rfl
  | cons spans lists ih =>
      have hrest := ih (number + 1) fun l hl => canonical l (List.mem_cons_of_mem spans hl)
      have hline := Span.readLine_canonical (canonical spans List.mem_cons_self)
      have hshown : (Span.writeList spans).isEmpty = false := rfl
      rw [List.map_cons, List.flatten_cons, readLines]
      simp only [Span.trimList_writeList, hshown, hline, hrest]
      rfl

/-- A stream is read as the lists of spans that were written to it, line by line. -/
theorem readText_canonical {lists : List (List Span)}
    (canonical : ∀ spans ∈ lists, ∀ s ∈ spans, s.Canonical) :
    readText (['\n'].intercalate (lists.map Span.writeList)) = ⟨.ok lists.flatten, []⟩ := by
  have hlines : Text.lines '\n' (['\n'].intercalate (lists.map Span.writeList)) =
      lists.map Span.writeList := by
    refine Text.lines_intercalate fun l hl => ?_
    obtain ⟨spans, -, rfl⟩ := List.mem_map.1 hl
    exact ⟨(Span.plain_writeList spans).notMem (by decide), List.cons_ne_nil _ _⟩
  rw [readText, hlines, readLines_canonical 1 canonical]

def calledSpans : List (List Span) :=
  [[{ traceId := .string "000000000000007b", id := .string "0000000000000001",
      kind := .string "CLIENT", timestamp := .int 5, debug := .bool false, shared := .bool false,
      localEndpoint := some { serviceName := .string "web", port := .int 80 },
      annotations := [⟨.int 0, .string "sent"⟩, ⟨.int 3, .string "a\"b"⟩] }],
    [],
    [{  traceId := .string "000000000000007b", id := .string "0000000000000001",
        parentId := .string "0000000000000002", shared := .bool true,
        tags := [("traceId", .string ""), ("é", .string "\n")] }]]

theorem canonical_calledSpans : ∀ spans ∈ calledSpans, ∀ s ∈ spans, s.Canonical := by
  have hbare := Span.canonical_bare (t := "000000000000007b") (i := "0000000000000001")
    (by decide +kernel) (by decide +kernel)
  have hendpoint : Endpoint.Canonical { serviceName := .string "web", port := .int 80 } :=
    ⟨.string (by decide +kernel), .null, .null, .present 80, by decide, by decide⟩
  have hannotations : ∀ a ∈ [(⟨.int 0, .string "sent"⟩ : Annotation), ⟨.int 3, .string "a\"b"⟩],
      a.WellTyped := by
    simp only [List.forall_mem_cons, List.not_mem_nil, false_implies, implies_true, and_true]
    exact ⟨⟨⟨0, rfl⟩, _, rfl⟩, ⟨3, rfl⟩, _, rfl⟩
  intro spans hspans s hs
  simp only [calledSpans, List.mem_cons, List.not_mem_nil, or_false] at hspans
  rcases hspans with rfl | rfl | rfl
  · obtain rfl := List.mem_singleton.1 hs
    exact
      { hbare with
        kind := .string (by decide)
        timestamp := .present 5
        timestampNotZero := by decide
        localEndpoint := fun e he => Option.some.inj he ▸ hendpoint
        annotations := hannotations
        inOrder := List.pairwise_pair.2 (Prod.Lex.left _ _ (by decide))
        debug := .present false
        shared := .present false
        legible :=
          { hbare.legible with
            kind := Text.joined_ofChars _
            localEndpoint := fun e he => Option.some.inj he ▸ ⟨Text.joined_ofChars _, trivial, trivial⟩
            annotations := by
              simp only [List.forall_mem_cons, List.not_mem_nil, false_implies, implies_true, and_true]
              exact ⟨Text.joined_ofChars _, Text.joined_ofChars _⟩
            debug := trivial
            shared := trivial } }
  · cases hs
  · obtain rfl := List.mem_singleton.1 hs
    exact
      { hbare with
        parentId := .string (by decide +kernel)
        tags := by
          simp only [List.forall_mem_cons, List.not_mem_nil, false_implies, implies_true, and_true]
          exact ⟨⟨_, rfl⟩, _, rfl⟩
        tagNames := by decide
        shared := .present true
        legible :=
          { hbare.legible with
            parentId := Text.joined_ofChars _
            tags := by
              refine Value.readable_object.2 ⟨⟨by decide, ?_⟩, ?_⟩
              all_goals
                simp only [List.forall_mem_cons, List.not_mem_nil, false_implies, implies_true,
                  and_true]
                exact ⟨Text.joined_ofChars _, Text.joined_ofChars _⟩
            shared := trivial } }

theorem readText_canonical_calledSpans : (∀ spans ∈ calledSpans, ∀ s ∈ spans, s.Canonical) ∧
    readText (['\n'].intercalate (calledSpans.map Span.writeList)) =
      ⟨.ok calledSpans.flatten, []⟩ :=
  ⟨canonical_calledSpans, readText_canonical canonical_calledSpans⟩

end SpanForest
