import SpanForest.Proofs.Sorting.Runs
import SpanForest.Proofs.Span.Accepted
import SpanForest.Proofs.Trace.Canonical
import SpanForest.Proofs.Trace.Groups
import SpanForest.Proofs.Trace.Showable

/-!
What is done with the spans of a line: they are grouped by trace, and each trace is repaired, built
to a tree with and without a repair, and drawn. Only two of these steps can fail. The cleanup order
may not compare two addresses, and a name may be no text; the main statement says that nothing else
fails. Writing spans as JSON is a function and needs no word.
-/

namespace SpanForest

theorem Span.Regular.workable {s : Span} (h : s.Regular) : s.Workable where
  traceId := by
    obtain ⟨t, ht, -⟩ := h.traceId
    exact ⟨t, ht⟩
  id := by
    obtain ⟨t, ht, -⟩ := h.id
    exact ⟨t, ht⟩
  parentId := h.parentId.isOptionalString
  serviceName := by
    unfold Span.serviceName
    split
    · next e he => exact (h.localEndpoint e he).serviceName.isOptionalString
    · exact .absent
  annotations := h.annotations

namespace Trace

structure Closed (P : Span → Prop) : Prop where
  workable : ∀ s, P s → s.Workable
  normalized : ∀ traceId, (∃ t, traceId = .string t) → ∀ s, P s → P (normalized traceId s)
  joined : ∀ s t, P s → P t → P (s.joined t)
  adopted : ∀ p s, P p → P s → P { s with parentId := p.parentId }

theorem closed_workable : Closed Span.Workable where
  workable _ := id
  normalized _ hid _ := workable_normalized hid
  joined _ _ := Span.Workable.joined
  adopted _ _ hp hs := { hs with parentId := hp.parentId }

structure TakenOver (field : Span → Value) : Prop where
  normalized : ∀ traceId s, field (normalized traceId s) = field s
  joined : ∀ s t, field (s.joined t) = field s ∨ field (s.joined t) = field t
  adopted : ∀ s parentId, field { s with parentId := parentId } = field s

theorem takenOver_id : TakenOver Span.id := ⟨fun _ _ => rfl, fun _ _ => .inl rfl, fun _ _ => rfl⟩

theorem takenOver_serviceName : TakenOver Span.serviceName :=
  ⟨fun _ _ => rfl, Span.serviceName_joined, fun _ _ => rfl⟩

theorem takenOver_name : TakenOver Span.name := ⟨fun _ _ => rfl, Span.name_joined, fun _ _ => rfl⟩

theorem Closed.and {P : Span → Prop} (closed : Closed P) {field : Span → Value}
    (taken : TakenOver field) (Q : Value → Prop) : Closed fun s => P s ∧ Q (field s) where
  workable s hs := closed.workable s hs.1
  normalized traceId hid s hs :=
    ⟨closed.normalized traceId hid s hs.1, (taken.normalized traceId s).symm ▸ hs.2⟩
  joined s t hs ht := by
    refine ⟨closed.joined s t hs.1 ht.1, ?_⟩
    rcases taken.joined s t with h | h
    · exact h.symm ▸ hs.2
    · exact h.symm ▸ ht.2
  adopted p s hp hs := ⟨closed.adopted p s hp.1 hs.1, (taken.adopted s p.parentId).symm ▸ hs.2⟩

theorem closed_nameShown : Closed fun s => s.Workable ∧ s.NameShown :=
  closed_workable.and takenOver_name fun name => name.isSet = true → ∃ t, name = .string t

theorem perm_of_cleanupSort {spans ordered : List Span} (h : Span.cleanupSort spans = .ok ordered) :
    ordered.Perm spans :=
  (Sorting.sort_ends Span.isPlain Span.cleanupBefore spans).of_ok h

/-- Spans that can be put in cleanup order, if there is more than one. -/
def Orderable (spans : List Span) : Prop :=
  1 < spans.length → ∃ ordered, Span.cleanupSort spans = .ok ordered

theorem orderable_of_comparable {spans : List Span}
    (h : ∀ s ∈ spans, ∀ t ∈ spans, ∃ below, s.cleanupBefore t = .ok below) : Orderable spans := by
  intro _
  have hends := Sorting.sort_ends Span.isPlain Span.cleanupBefore spans
  cases hsort : Span.cleanupSort spans with
  | ok ordered => exact ⟨ordered, rfl⟩
  | error e =>
      obtain ⟨s, hs, t, ht, hfault⟩ := hends.of_error hsort
      obtain ⟨below, hbelow⟩ := h s hs t ht
      rw [hbelow] at hfault
      cases hfault

theorem orderable_of_run_merge {sink : Sink} {history after : Delivery} {spans : List Span} {m : Merged}
    (hrun : (merge sink spans).run.run history = (.ok m, after)) : Orderable spans := by
  match spans with
  | [] => exact fun h => absurd h (Nat.not_lt_zero 1)
  | [_] => exact fun h => absurd h (Nat.lt_irrefl 1)
  | first :: second :: rest =>
      intro _
      cases hsort : Span.cleanupSort (first :: second :: rest) with
      | ok ordered => exact ⟨ordered, rfl⟩
      | error e =>
          have hfault : (liftM (Span.cleanupSort (first :: second :: rest)) :
              Reporting (List Span)).run.run history = (.error e, history) := by
            rw [hsort]
            rfl
          rw [merge, run_bind_error hfault] at hrun
          · cases hrun
          · exact List.cons_ne_nil second rest

section

variable {P : Span → Prop} (closed : Closed P) (sink : Sink) (history : Delivery)
  {spans : List Span} (h : ∀ s ∈ spans, P s)
include closed h

theorem run_merge_of_orderable (orderable : Orderable spans) :
    ∃ m after, (merge sink spans).run.run history = (.ok m, after) ∧ ∀ s ∈ m.spans spans, P s := by
  match spans with
  | [] => exact ⟨.unchanged, history, rfl, h⟩
  | [_] => exact ⟨.unchanged, history, rfl, h⟩
  | first :: second :: rest =>
      obtain ⟨ordered, hsort⟩ := orderable (Nat.succ_lt_succ (Nat.succ_pos _))
      have hperm := perm_of_cleanupSort hsort
      have hordered : ∀ s ∈ ordered, P s := fun s hs => h s (hperm.mem_iff.1 hs)
      have hstart : first.traceId ∈ ordered.map Span.traceId :=
        List.mem_map_of_mem (hperm.mem_iff.2 List.mem_cons_self)
      obtain ⟨found, after, -, hid, -, -, hmerge⟩ := merge_of_sorted sink history hsort
        (fun s hs => closed.workable s (hordered s hs)) hstart
      cases hneeded : found.needed with
      | false =>
          rw [hneeded, if_neg Bool.false_ne_true] at hmerge
          exact ⟨_, _, hmerge, h⟩
      | true =>
          rw [hneeded, if_pos rfl] at hmerge
          have hstring : ∃ t, found.traceId = .string t := by
            obtain ⟨s, hs, hsid⟩ := List.mem_map.1 hid
            exact hsid ▸ (closed.workable s (hordered s hs)).traceId
          refine ⟨_, _, hmerge, mendAll_induction (closed.normalized _ hstring) closed.joined
            closed.adopted (fun leg hleg p hp => ?_) none nofun⟩
          exact hordered p (mem_of_mem_parts hleg hp)

omit h in
def Closed.joinable : Joinable { s // P s } where
  span := Subtype.val
  joined s t := ⟨s.1.joined t.1, closed.joined s.1 t.1 s.2 t.2⟩
  id s := (closed.workable s.1 s.2).id
  parentId s := (closed.workable s.1 s.2).parentId
  combine s t := Span.combine_eq (closed.workable s.1 s.2) (closed.workable t.1 t.2)

theorem run_assemble_of_closed :
    ∃ t after, (assemble sink spans).run.run history = (.ok t, after) ∧
      t.graph.WellLinked t.root ∧ ∀ n s, t.graph.value n = some s → P s := by
  have hgiven : (spans.pmap Subtype.mk h).map closed.joinable.span = spans := by
    simp [List.map_pmap, Closed.joinable]
  obtain ⟨root, b, d, hready, hrun⟩ :=
    closed.joinable.run_assemble sink (spans.pmap Subtype.mk h) history
  rw [hgiven] at hrun
  refine ⟨_, d, hrun, hready.wellLinked.map _, fun n s hs => ?_⟩
  rw [Graph.value_map] at hs
  obtain ⟨kept, -, rfl⟩ := Option.map_eq_some_iff.1 hs
  exact kept.2

theorem run_buildTree_of_closed (repairFirst : Bool) (orderable : repairFirst = true → Orderable spans) :
    ∃ t after, (buildTree sink repairFirst spans).run.run history = (.ok t, after) ∧
      t.graph.WellLinked t.root ∧ ∀ n s, t.graph.value n = some s → P s := by
  cases repairFirst with
  | false => exact run_assemble_of_closed closed sink history h
  | true =>
      obtain ⟨m, between, hmerge, hm⟩ := run_merge_of_orderable closed sink history h (orderable rfl)
      obtain ⟨t, after, hrun, ht⟩ := run_assemble_of_closed closed sink between hm
      refine ⟨t, after, ?_, ht⟩
      rw [buildTree, if_pos rfl, run_bind_ok hmerge, hrun]

end

theorem orderable_of_run_buildTree {sink : Sink} {history after : Delivery} {spans : List Span}
    {repairFirst : Bool} {t : Assembled}
    (hrun : (buildTree sink repairFirst spans).run.run history = (.ok t, after)) :
    repairFirst = true → Orderable spans := by
  rintro rfl
  rw [buildTree, if_pos rfl] at hrun
  obtain ⟨m, between, hmerge, -⟩ := exists_of_run_bind_ok hrun
  exact orderable_of_run_merge hmerge

theorem Closed.of_run_buildTree {P : Span → Prop} (closed : Closed P) {sink : Sink}
    {history after : Delivery} {spans : List Span} (h : ∀ s ∈ spans, P s) {repairFirst : Bool}
    {t : Assembled} (hrun : (buildTree sink repairFirst spans).run.run history = (.ok t, after)) :
    t.graph.WellLinked t.root ∧ ∀ n s, t.graph.value n = some s → P s := by
  obtain ⟨t', after', hrun', hkept⟩ := run_buildTree_of_closed closed sink history h repairFirst
    (orderable_of_run_buildTree hrun)
  rw [hrun] at hrun'
  obtain rfl := Except.ok.inj (Prod.mk.inj hrun').1
  exact hkept

/-- All that is done with the spans of one trace comes to a result. -/
structure Processed (sink : Sink) (history : Delivery) (indent : Text) (spans : List Span) :
    Prop where
  merged : ∃ m after, (merge sink spans).run.run history = (.ok m, after)
  drawn : ∀ repairFirst, ∃ t after text,
    (buildTree sink repairFirst spans).run.run history = (.ok t, after) ∧ t.draw indent = .ok text

section

variable {sink : Sink} {history : Delivery} {indent : Text} {spans : List Span}
  (workable : ∀ s ∈ spans, s.Workable)
include workable

theorem processed_iff : Processed sink history indent spans ↔ Orderable spans ∧
    ∀ repairFirst t after,
      (buildTree sink repairFirst spans).run.run history = (.ok t, after) → t.NamesShown := by
  constructor
  · intro h
    obtain ⟨m, after, hmerge⟩ := h.merged
    have orderable := orderable_of_run_merge hmerge
    refine ⟨orderable, fun repairFirst t after hrun => ?_⟩
    obtain ⟨hlinked, hvalues⟩ := closed_workable.of_run_buildTree workable hrun
    obtain ⟨drawn, _, text, hdrawn, htext⟩ := h.drawn repairFirst
    rw [hrun] at hdrawn
    obtain rfl := Except.ok.inj (Prod.mk.inj hdrawn).1
    exact (Assembled.exists_draw_iff hlinked hvalues indent).1 ⟨text, htext⟩
  · rintro ⟨orderable, hnames⟩
    obtain ⟨m, after, hmerge, -⟩ := run_merge_of_orderable closed_workable sink history workable orderable
    refine ⟨⟨m, after, hmerge⟩, fun repairFirst => ?_⟩
    obtain ⟨t, after, hrun, hlinked, hvalues⟩ :=
      run_buildTree_of_closed closed_workable sink history workable repairFirst fun _ => orderable
    obtain ⟨text, htext⟩ :=
      (Assembled.exists_draw_iff hlinked hvalues indent).2 (hnames repairFirst t after hrun)
    exact ⟨t, after, text, hrun, htext⟩

theorem processed_of_names (names : ∀ s ∈ spans, s.NameShown)
    (comparable : ∀ s ∈ spans, ∀ t ∈ spans, ∃ below, s.cleanupBefore t = .ok below) :
    Processed sink history indent spans := by
  have orderable := orderable_of_comparable comparable
  refine (processed_iff workable).2 ⟨orderable, fun repairFirst t after hrun => ?_⟩
  obtain ⟨-, hvalues⟩ :=
    closed_nameShown.of_run_buildTree (fun s hs => ⟨workable s hs, names s hs⟩) hrun
  exact fun n _ s hs => (hvalues n s hs).2

end

/-- The spans of a line can be grouped, and those of a trace are processed exactly if they can be put
in cleanup order and the names in their trees are texts; for that it is enough that their own names
are texts and that any two of them can be compared. -/
theorem readLine_processed_iff {line : List Char} {spans : List Span}
    (h : Span.readLine line = .ok spans) (sink : Sink) (history : Delivery) (indent : Text) :
    groupByTrace spans = .ok (groups spans) ∧
      ∀ group ∈ groups spans,
        (Processed sink history indent group.2 ↔ Orderable group.2 ∧
          ∀ repairFirst t after,
            (buildTree sink repairFirst group.2).run.run history = (.ok t, after) → t.NamesShown) ∧
        ((∀ s ∈ group.2, s.NameShown) →
          (∀ s ∈ group.2, ∀ t ∈ group.2, ∃ below, s.cleanupBefore t = .ok below) →
            Processed sink history indent group.2) := by
  have workable : ∀ s ∈ spans, s.Workable := fun s hs => (Span.regular_of_mem_readLine h hs).workable
  have hids : ∀ s ∈ spans, ∃ i, s.traceId = .string i := fun s hs => (workable s hs).traceId
  refine ⟨groupByTrace_string hids, fun group hgroup => ?_⟩
  have hgroup : ∀ s ∈ group.2, s.Workable := fun s hs => workable s (mem_of_mem_groups hgroup hs)
  exact ⟨processed_iff hgroup, processed_of_names hgroup⟩

def numberLine : List Char :=
  "[\x7b\"traceId\":\"1\",\"id\":\"1\",\"name\":\"get\",\"kind\":[1],".toList ++
  "\"localEndpoint\":\x7b\"ipv4\":5\x7d\x7d,\x7b\"traceId\":\"1\",".toList ++
  "\"id\":\"1\",\"localEndpoint\":\x7b\"ipv4\":6.5\x7d\x7d]".toList

def numberSpans : List Span :=
  [{ traceId := .string "0000000000000001", id := .string "0000000000000001", name := .string "get",
      kind := .array [.int 1], localEndpoint := some { ipv4 := .int 5 } },
    { traceId := .string "0000000000000001", id := .string "0000000000000001",
      localEndpoint := some { ipv4 := .float (.ofRatio false 13 2) } }]

theorem readLine_numberLine : Span.readLine numberLine = .ok numberSpans :=
  eq_ok_of_toOption (by decide +kernel)

theorem readLine_processed_iff_numberLine : Span.readLine numberLine = .ok numberSpans ∧
    groupByTrace numberSpans = .ok (groups numberSpans) ∧
      ∀ group ∈ groups numberSpans,
        (Processed Sink.quiet .empty Drawing.defaultIndent group.2 ↔ Orderable group.2 ∧
          ∀ repairFirst t after,
            (buildTree Sink.quiet repairFirst group.2).run.run .empty = (.ok t, after) → t.NamesShown) ∧
        ((∀ s ∈ group.2, s.NameShown) →
          (∀ s ∈ group.2, ∀ t ∈ group.2, ∃ below, s.cleanupBefore t = .ok below) →
            Processed Sink.quiet .empty Drawing.defaultIndent group.2) :=
  ⟨readLine_numberLine,
    readLine_processed_iff readLine_numberLine Sink.quiet .empty Drawing.defaultIndent⟩

/-- A line of one span whose name is a number. -/
def numberNameLine : List Char := "[\x7b\"traceId\":\"1\",\"id\":\"1\",\"name\":5\x7d]".toList

def numberName : Span :=
  { traceId := .string "0000000000000001", id := .string "0000000000000001", name := .int 5 }

/-- The tree of the span is built, and its one line cannot be drawn. -/
theorem not_processed_numberName : Span.readLine numberNameLine = .ok [numberName] ∧
    ∃ group ∈ groups [numberName],
      ¬ Processed Sink.quiet .empty Drawing.defaultIndent group.2 := by
  have hread : Span.readLine numberNameLine = .ok [numberName] := eq_ok_of_toOption (by decide +kernel)
  have workable : ∀ s ∈ [numberName], s.Workable := fun s hs =>
    (Span.regular_of_mem_readLine hread hs).workable
  refine ⟨hread, (⟨numberName.traceId⟩, [numberName]), List.mem_singleton_self _, fun h => ?_⟩
  obtain ⟨-, hnames⟩ := (processed_iff workable).1 h
  have hrun : ((buildTree Sink.quiet false [numberName]).run.run .empty).1 =
      .ok ⟨⟨#[⟨some numberName, none, []⟩]⟩, 0⟩ := eq_ok_of_toOption (by decide +kernel)
  obtain ⟨t, ht⟩ := hnames false _ _ (Prod.ext hrun rfl) 0 (by decide +kernel) numberName rfl rfl
  cases ht

end Trace

end SpanForest
