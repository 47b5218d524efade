import SpanForest.Proofs.Trace.Assembled
import SpanForest.Proofs.Tree.Deciding

/-!
Where a node of a span tree hangs and what its span says about it. The parts of a span are combined
to a span with the first parent that one of them names, but the node hangs where the last part says
that names a parent with a shared side, or else the last part of all. The main statement says
exactly when the two agree. A shared span hangs from its unshared side instead.
-/

namespace SpanForest.Trace

open Registered

/-- Whether an id is there on a side. Spans that name themselves do not count. -/
def hasSide (given : List Span) (i : Value) (shared : Bool) : Bool :=
  given.any fun s => !s.isOwnParent && (s.id == i && s.isShared == shared)

/-- The unshared parts of a span, without those that name themselves. -/
def plainParts (given : List Span) (i : Value) : List Span :=
  given.filter fun s => !s.isOwnParent && (s.id == i && s.isShared == false)

/-- The part of a span that decides where its node hangs. -/
def decidingPart (given : List Span) (i : Value) : Option Span :=
  ((plainParts given i).filter fun s => hasSide given s.parentId true).getLast?.or
    (plainParts given i).getLast?

/-- The node above a node has a span of the given id. -/
def Assembled.HangsFrom (t : Assembled) (n : NodeId) (i : Value) : Prop :=
  ∃ m, t.graph.parent n = some m ∧ t.Holds m i

section

variable (given : List TypedSpan)

theorem key_beq (s : TypedSpan) (i : Text) (shared : Bool) :
    (s.span.id == .string i && s.span.isShared == shared) = (s.key == ⟨i, shared⟩) := by
  rw [Bool.eq_iff_iff, s.span_id]
  simp [TypedSpan.key, TypedSpan.registration, Registration.key]

theorem hasSide_string (i : Text) (shared : Bool) :
    hasSide (given.map TypedSpan.span) (.string i) shared = has (registrations given) ⟨i, shared⟩ := by
  rw [hasSide, has, registrations, List.any_map, List.any_map, List.any_filter]
  refine congrArg (List.any given) (funext fun s => ?_)
  exact congrArg _ (key_beq s i shared)

theorem hasSide_null (shared : Bool) : hasSide (given.map TypedSpan.span) .null shared = false := by
  rw [hasSide, List.any_map, List.any_eq_false]
  intro s _
  simp [s.span_id]

theorem forall_hasSide (s : TypedSpan) :
    (∀ shared, hasSide (given.map TypedSpan.span) s.span.parentId shared = false) ↔
      ∀ q ∈ s.parentId, ∀ shared, has (registrations given) ⟨q, shared⟩ = false := by
  have hparent := s.typed.parentId
  rw [TypedSpan.parentId]
  generalize s.span.parentId = v at hparent ⊢
  cases hparent with
  | absent => simp [hasSide_null, Value.string?]
  | present p => simp [hasSide_string, Value.string?]

theorem preferred_isSome {s : TypedSpan} (hs : s.span.isShared = false) :
    (preferred (registrations given) s.registration).isSome =
      hasSide (given.map TypedSpan.span) s.span.parentId true := by
  have hpreferred : preferred (registrations given) s.registration =
      (s.span.parentId.string?.map fun p => ⟨p, true⟩).filter fun k => has (registrations given) k :=
    if_neg (Bool.eq_false_iff.1 hs)
  have hparent := s.typed.parentId
  rw [hpreferred]
  generalize s.span.parentId = v at hparent ⊢
  cases hparent with
  | absent =>
      rw [hasSide_null]
      rfl
  | present p =>
      rw [hasSide_string, Value.string?, Option.map_some, Option.filter_some]
      cases has (registrations given) ⟨p, true⟩ <;> rfl

theorem decidingPart_eq (i : Text) : decidingPart (given.map TypedSpan.span) (.string i) =
    (decidingAt (registrations given) ⟨i, false⟩).map fun r => r.value.span := by
  have hparts : plainParts (given.map TypedSpan.span) (.string i) =
      (given.filter fun s => !s.span.isOwnParent && s.key == ⟨i, false⟩).map TypedSpan.span := by
    rw [plainParts, List.filter_map]
    refine congrArg _ (List.filter_congr fun s _ => ?_)
    exact congrArg _ (key_beq s i false)
  have hown : (registrations given).filter (fun r => r.key == ⟨i, false⟩) =
      (given.filter fun s => !s.span.isOwnParent && s.key == ⟨i, false⟩).map
        TypedSpan.registration := by
    rw [registrations, List.filter_map, List.filter_filter]
    refine congrArg _ (List.filter_congr fun s _ => ?_)
    exact Bool.and_comm _ _
  have hprefers : ((given.filter fun s => !s.span.isOwnParent && s.key == ⟨i, false⟩).filter fun s =>
      hasSide (given.map TypedSpan.span) s.span.parentId true) =
        (given.filter fun s => !s.span.isOwnParent && s.key == ⟨i, false⟩).filter fun s =>
          (preferred (registrations given) s.registration).isSome := by
    refine List.filter_congr fun s hs => ?_
    have hkey := (Bool.and_eq_true_iff.1 (List.mem_filter.1 hs).2).2
    exact (preferred_isSome given (congrArg Key.shared (eq_of_beq hkey))).symm
  rw [decidingPart, decidingAt, hparts, hown]
  simp only [List.filter_map, List.getLast?_map, Option.map_or, Option.map_map, Function.comp_def,
    hprefers, TypedSpan.registration]

variable {given}

theorem exists_decidingPart {i : Text} (hhas : has (registrations given) ⟨i, false⟩ = true) :
    ∃ part : TypedSpan, decidingAt (registrations given) ⟨i, false⟩ = some part.registration ∧
      part.span.isShared = false := by
  obtain ⟨r, hr, hkey, hdeciding⟩ := exists_decidingAt hhas
  obtain ⟨part, -, -, rfl⟩ := mem_registrations.1 hr
  exact ⟨part, hdeciding, congrArg Key.shared (eq_of_beq hkey)⟩

variable {b : Builder Text TypedSpan} {root : NodeId}
  (h : Builder.Ready TypedSpan.joined (registrations given) b root)
include h

theorem hangsFrom_assembled {n : NodeId} (hreach : (b.graph.attachAll (b.links root)).Reaches root n)
    (hne : n ≠ root) {k : Key Text} (hk : b.Holds k n) {p : Text} :
    (assembled b root).HangsFrom n (.string p) ↔
      ∃ shared, b.Holds ⟨p, shared⟩ (b.nodeAbove root (resolvedParent (registrations given) k)) := by
  cases hreach with
  | refl => exact absurd rfl hne
  | @tail m _ hm hstep =>
      have hm : (b.graph.attachAll (b.links root)).Reaches root m := hm
      have hparent : (assembled b root).graph.parent n = some m :=
        (Graph.parent_map _ _ n).trans (h.wellLinked.parent m n hstep)
      obtain ⟨l, -, -, hl, rfl⟩ := h.mem_children.1 hstep
      obtain rfl := (h.holds_iff_of_find? hl).1 hk
      rw [Assembled.HangsFrom, hparent]
      simp [holds_assembled h, hm]

end

/-- A node hangs where its span says, if that is there, exactly if the deciding part says the same, or
else names nothing that is there while the root has the id. -/
theorem buildTree_hangsFrom_iff (sink : Sink) (repairFirst : Bool) (history : Delivery)
    {spans : List Span} (typed : ∀ s ∈ spans, s.WellTyped) :
    ∃ given t after, Given sink spans history repairFirst given ∧
      (buildTree sink repairFirst spans).run.run history = (.ok t, after) ∧
      t.graph.WalksAsTree t.root ∧
      ∀ n ∈ t.graph.traverseTree t.root, n ≠ t.root →
        ∀ s p, t.graph.value n = some s → s.isShared = false → s.parentId = .string p →
          (∃ m, t.Holds m (.string p)) →
          (t.HangsFrom n (.string p) ↔ ∃ part, decidingPart given s.id = some part ∧
            (part.parentId = s.parentId ∨ t.Holds t.root (.string p) ∧
              ∀ shared, hasSide given part.parentId shared = false)) := by
  obtain ⟨given, root, b, after, hgiven, hready, hrun⟩ :=
    run_buildTree sink repairFirst history typed
  refine ⟨_, _, after, hgiven, hrun, (wellLinked_assembled hready).walksAsTree, ?_⟩
  intro n hn hne s p hs hunshared hparent hp
  have hreach := (mem_traverseTree_assembled hready).1 hn
  rw [value_assembled] at hs
  obtain ⟨s, hvalue, rfl⟩ := Option.map_eq_some_iff.1 hs
  have hkey : s.key = ⟨s.id, false⟩ := congrArg (Key.mk s.id) hunshared
  have hholds : b.Holds ⟨s.id, false⟩ n := hkey ▸ holds_of_reaches hready hreach hvalue
  obtain ⟨m, hm⟩ := hp
  obtain ⟨-, shared, hm⟩ := (holds_assembled hready).1 hm
  have hthere : ∃ shared, has (registrations given) ⟨p, shared⟩ = true :=
    ⟨shared, hready.has_of_holds hm⟩
  obtain ⟨part, hdeciding, hpart⟩ := exists_decidingPart (hready.has_of_holds hholds)
  have hroot : (assembled b root).Holds (assembled b root).root (.string p) ↔
      ∃ shared, b.Holds ⟨p, shared⟩ root :=
    (holds_assembled hready).trans (and_iff_right .refl)
  rw [hangsFrom_assembled hready hreach hne hholds, hready.holds_above_iff hpart hdeciding hthere,
    hparent, s.span_id, decidingPart_eq, hdeciding, hroot]
  simp only [Option.map_some, Option.some.injEq, exists_eq_left', forall_hasSide,
    TypedSpan.registration, TypedSpan.parentId, Value.string?_eq_some]

/-- A span in two parts that ran in two places. Only the first part names a parent. -/
def splitSpans : List Span :=
  [{ traceId := .string "1", id := .string "a" },
    { traceId := .string "1", id := .string "p", parentId := .string "a" },
    { traceId := .string "1", id := .string "x", parentId := .string "p",
      localEndpoint := some { serviceName := .string "frontend" } },
    { traceId := .string "1", id := .string "x",
      localEndpoint := some { serviceName := .string "backend" } }]

theorem wellTyped_splitSpans : ∀ s ∈ splitSpans, s.WellTyped := by
  have endpoint (name : Text) :
      ∀ e ∈ some ({ serviceName := .string name } : Endpoint), e.WellTyped := by
    intro e he
    rw [← Option.some.inj he]
    exact ⟨.present name, .absent, .absent, .absent⟩
  intro s hs
  simp only [splitSpans, List.mem_cons, List.not_mem_nil, or_false] at hs
  rcases hs with rfl | rfl | rfl | rfl
  · exact Span.wellTyped_bare "1" "a" .absent .absent nofun
  · exact Span.wellTyped_bare "1" "p" (.present "a") .absent nofun
  · exact Span.wellTyped_bare "1" "x" (.present "p") .absent (endpoint "frontend")
  · exact Span.wellTyped_bare "1" "x" .absent .absent (endpoint "backend")

theorem buildTree_hangsFrom_iff_splitSpans : (∀ s ∈ splitSpans, s.WellTyped) ∧
    ∃ given t after, Given Sink.quiet splitSpans .empty true given ∧
      (buildTree Sink.quiet true splitSpans).run.run .empty = (.ok t, after) ∧
      t.graph.WalksAsTree t.root ∧
      ∀ n ∈ t.graph.traverseTree t.root, n ≠ t.root →
        ∀ s p, t.graph.value n = some s → s.isShared = false → s.parentId = .string p →
          (∃ m, t.Holds m (.string p)) →
          (t.HangsFrom n (.string p) ↔ ∃ part, decidingPart given s.id = some part ∧
            (part.parentId = s.parentId ∨ t.Holds t.root (.string p) ∧
              ∀ shared, hasSide given part.parentId shared = false)) :=
  ⟨wellTyped_splitSpans, buildTree_hangsFrom_iff Sink.quiet true .empty wellTyped_splitSpans⟩

def splitSpan : Span :=
  { traceId := .string "1", id := .string "x", parentId := .string "p",
    localEndpoint := some { serviceName := .string "frontend" } }

def splitTree : Assembled :=
  ⟨⟨#[⟨some { traceId := .string "1", id := .string "a" }, none, [1, 3]⟩,
      ⟨some { traceId := .string "1", id := .string "p", parentId := .string "a" }, some 0, []⟩,
      ⟨some splitSpan, none, []⟩, ⟨some splitSpan, some 0, []⟩]⟩, 0⟩

/-- The parent that the span names is there, but the span's node hangs from the root. -/
theorem not_hangsFrom_splitSpans : (∀ s ∈ splitSpans, s.WellTyped) ∧
    ∃ t after, (buildTree Sink.quiet true splitSpans).run.run .empty = (.ok t, after) ∧
      ∃ n ∈ t.graph.traverseTree t.root, n ≠ t.root ∧ ∃ s, t.graph.value n = some s ∧
        s.isShared = false ∧ s.parentId = .string "p" ∧ (∃ m, t.Holds m (.string "p")) ∧
        ¬ t.HangsFrom n (.string "p") := by
  obtain ⟨after, hrun⟩ := exists_eq_ok (show ((buildTree Sink.quiet true splitSpans).run.run
    .empty).1.toOption = some splitTree by decide +kernel)
  refine ⟨wellTyped_splitSpans, splitTree, after, hrun, 3, by decide, by decide, splitSpan, rfl, rfl,
    rfl, ⟨1, by decide, _, rfl, rfl⟩, ?_⟩
  rintro ⟨m, hm, -, s, hs, hid⟩
  obtain rfl : 0 = m := Option.some.inj hm
  rw [← Option.some.inj hs] at hid
  exact absurd (Value.string.inj hid) (by decide)

end SpanForest.Trace
