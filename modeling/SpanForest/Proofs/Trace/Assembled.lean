import SpanForest.Proofs.Trace.Registering
import SpanForest.Proofs.Trace.Repaired
import SpanForest.Proofs.Tree.Kept

/-!
The tree of spans of the declared kinds. Their ids are strings, and combining two of them does not
fail, so assembling them is building a tree over strings. A node that the root reaches has the id
and the side of the key that it stands for.
-/

namespace SpanForest

namespace Value

theorem same_string_eq_any {v : Value} (h : v.IsOptionalString) (i : Text) :
    (Value.string i).same v = v.string?.any (· == i) := by
  cases h with
  | absent => rfl
  | present s => rw [same_string, BEq.comm]; rfl

end Value

theorem Span.wellTyped_bare (traceId id : Text) {parentId shared : Value}
    (hparent : parentId.IsOptionalString) (hshared : shared.IsFlag) {localEndpoint : Option Endpoint}
    (hendpoint : ∀ e ∈ localEndpoint, e.WellTyped) : Span.WellTyped
      { traceId := .string traceId, id := .string id, parentId, localEndpoint, shared } :=
  ⟨⟨_, rfl⟩, ⟨_, rfl⟩, hparent, .absent, .absent, .absent, .absent, hendpoint, nofun, nofun, nofun,
    .nil, .absent, hshared⟩

/-- A span whose fields have their declared kinds. -/
structure TypedSpan where
  span : Span
  typed : span.WellTyped

namespace TypedSpan

def id (s : TypedSpan) : Text := s.span.id.textOrEmpty

def parentId (s : TypedSpan) : Option Text := s.span.parentId.string?

theorem span_id (s : TypedSpan) : s.span.id = .string s.id := by
  obtain ⟨i, hi⟩ := s.typed.id
  rw [id, hi, Value.textOrEmpty]

theorem isOwnParent_eq (s : TypedSpan) : s.span.isOwnParent = s.parentId.any (· == s.id) := by
  rw [Span.isOwnParent, s.span_id]
  exact Value.same_string_eq_any s.typed.parentId s.id

def joined (s t : TypedSpan) : TypedSpan :=
  ⟨s.span.joined t.span, Span.wellTyped_joined s.typed t.typed⟩

def registration (s : TypedSpan) : Registration Text TypedSpan :=
  ⟨s.parentId, s.id, s.span.isShared, s⟩

def key (s : TypedSpan) : Key Text := s.registration.key

theorem key_joined {k : Key Text} {s t : TypedSpan} (hs : s.key = k) (ht : t.key = k) :
    (s.joined t).key = k := by
  have hshared : (s.joined t).span.isShared = (s.span.isShared || t.span.isShared) :=
    Span.combineFlag_isTrue s.typed.shared t.typed.shared
  have hboth : t.span.isShared = s.span.isShared := congrArg Key.shared (ht.trans hs.symm)
  rw [hboth, Bool.or_self] at hshared
  rw [← hs, key, key, Registration.key, Registration.key]
  exact congrArg _ hshared

def joinable : Trace.Joinable TypedSpan where
  span := span
  joined := joined
  id s := s.typed.id
  parentId s := s.typed.parentId
  combine s t := Span.combine_eq s.typed.workable t.typed.workable

def call (s : TypedSpan) : Call Text TypedSpan :=
  ⟨s.parentId, some s.id, some s.span.isShared, some s⟩

theorem shared_call (s : TypedSpan) : (s.call.shared == some true) = s.span.isShared :=
  joinable.shared_call s

theorem accepted?_call (s : TypedSpan) :
    s.call.accepted? = if s.span.isOwnParent then none else some s.registration := by
  have hshared := s.shared_call
  simp only [call] at hshared
  simp only [call, Call.accepted?, isOwnParent_eq, hshared, registration]

end TypedSpan

namespace Trace

def registrations (spans : List TypedSpan) : List (Registration Text TypedSpan) :=
  (spans.filter fun s => !s.span.isOwnParent).map TypedSpan.registration

theorem accepted_calls (spans : List TypedSpan) :
    Call.accepted (spans.map TypedSpan.call) = registrations spans := by
  induction spans with
  | nil => rfl
  | cons s spans ih =>
      have hs := s.accepted?_call
      rw [Call.accepted, List.map_cons]
      cases hown : s.span.isOwnParent with
      | true =>
          rw [hown, if_pos rfl] at hs
          rw [List.filterMap_cons_none hs, registrations, List.filter_cons_of_neg (by simp [hown])]
          exact ih
      | false =>
          rw [hown, if_neg Bool.false_ne_true] at hs
          rw [List.filterMap_cons_some hs, registrations, List.filter_cons_of_pos (by simp [hown])]
          exact congrArg _ ih

def assembled (b : Builder Text TypedSpan) (root : NodeId) : Assembled :=
  ⟨(b.graph.attachAll (b.links root)).map TypedSpan.span, root⟩

theorem run_assemble (sink : Sink) (spans : List TypedSpan) (history : Delivery) :
    ∃ root b d, Builder.Ready TypedSpan.joined (registrations spans) b root ∧
      (assemble sink (spans.map TypedSpan.span)).run.run history =
        (.ok (assembled b root), d) := by
  obtain ⟨root, b, d, hready, hrun⟩ := TypedSpan.joinable.run_assemble sink spans history
  have hcalls : spans.map TypedSpan.joinable.call = spans.map TypedSpan.call := rfl
  rw [hcalls, accepted_calls] at hready
  exact ⟨root, b, d, hready, hrun⟩

/-- A node of the tree, with a span under the given id. -/
def Assembled.Holds (t : Assembled) (n : NodeId) (i : Value) : Prop :=
  n ∈ t.graph.traverseTree t.root ∧ ∃ s, t.graph.value n = some s ∧ s.id = i

section

open Registered

variable {spans : List TypedSpan}

theorem mem_registrations {r : Registration Text TypedSpan} : r ∈ registrations spans ↔
    ∃ s ∈ spans, s.span.isOwnParent = false ∧ s.registration = r := by
  simp [registrations, and_assoc]

theorem has_registrations {k : Key Text} : has (registrations spans) k = true ↔
    ∃ s ∈ spans, s.span.isOwnParent = false ∧ s.key = k := by
  rw [has_iff, List.mem_map]
  constructor
  · rintro ⟨r, hr, rfl⟩
    obtain ⟨s, hs, hown, rfl⟩ := mem_registrations.1 hr
    exact ⟨s, hs, hown, rfl⟩
  · rintro ⟨s, hs, hown, rfl⟩
    exact ⟨s.registration, mem_registrations.2 ⟨s, hs, hown, rfl⟩, rfl⟩

theorem key_foldValues {p : Registration Text TypedSpan → Bool} {k : Key Text}
    (hp : ∀ r ∈ registrations spans, p r = true → r.key = k) {s : TypedSpan}
    (hs : foldValues TypedSpan.joined (((registrations spans).filter p).map Registration.value) =
      some s) : s.key = k := by
  refine foldValues_induction (P := fun s => s.key = k) (fun v hv => ?_)
    (fun _ _ => TypedSpan.key_joined) hs
  obtain ⟨r, hr, rfl⟩ := List.mem_map.1 hv
  obtain ⟨hr, hpr⟩ := List.mem_filter.1 hr
  obtain ⟨s, -, -, rfl⟩ := mem_registrations.1 hr
  exact hp _ hr hpr

variable {b : Builder Text TypedSpan} {root : NodeId}
  (h : Builder.Ready TypedSpan.joined (registrations spans) b root)
include h

theorem value_of_holds {k : Key Text} {n : NodeId} (hk : b.Holds k n) :
    ∃ s, b.graph.value n = some s ∧ s.key = k := by
  rcases hk with ⟨hkey, hroot⟩ | hn
  · obtain rfl : root = n := Option.some.inj (h.rootNode.symm.trans hroot)
    have hrootKey : rootKey? (registrations spans) = some k := h.rootKey.symm.trans hkey
    have hsome := foldValues_isSome TypedSpan.joined (rootValues (registrations spans))
    rw [List.isEmpty_eq_false_iff.2 (rootValues_ne_nil hrootKey)] at hsome
    obtain ⟨s, hs⟩ := Option.isSome_iff_exists.1 hsome
    refine ⟨s, h.rootValue.trans hs, key_foldValues (fun r _ hpart => ?_) hs⟩
    rw [isRootPart, hrootKey, Bool.and_eq_true, Option.some_beq_some, beq_iff_eq] at hpart
    exact hpart.2.symm
  · obtain ⟨s, hs⟩ := Option.isSome_iff_exists.1 (h.node_isSome k n hn)
    have hvalue := h.nodeValue k
    rw [hn, Option.bind_some, hs] at hvalue
    refine ⟨s, hs, key_foldValues (fun r _ hplaced => ?_) hvalue.symm⟩
    exact eq_of_beq (Bool.and_eq_true_iff.1 hplaced).1

theorem holds_of_reaches {n : NodeId} (hreach : (b.graph.attachAll (b.links root)).Reaches root n)
    {s : TypedSpan} (hs : b.graph.value n = some s) : b.Holds s.key n := by
  have hholds : ∃ k, b.Holds k n := by
    cases hreach with
    | refl =>
        cases hkey : rootKey? (registrations spans) with
        | none =>
            rw [h.rootValue, rootValues_eq_nil hkey] at hs
            cases hs
        | some k => exact ⟨k, .inl ⟨h.rootKey.trans hkey, h.rootNode⟩⟩
    | tail _ hstep =>
        obtain ⟨k, -, -, hn, -⟩ := h.mem_children.1 hstep
        exact ⟨k, .inr hn⟩
  obtain ⟨k, hk⟩ := hholds
  obtain ⟨s', hs', rfl⟩ := value_of_holds h hk
  rwa [Option.some.inj (hs.symm.trans hs')]

theorem wellLinked_assembled : (assembled b root).graph.WellLinked root := h.wellLinked.map TypedSpan.span

theorem mem_traverseTree_assembled {n : NodeId} : n ∈ (assembled b root).graph.traverseTree root ↔
    (b.graph.attachAll (b.links root)).Reaches root n :=
  ((wellLinked_assembled h).enumerates_traverseTree.mem_iff n).trans (Graph.reaches_map _ _ _ _)

omit h in
theorem value_assembled (n : NodeId) :
    (assembled b root).graph.value n = (b.graph.value n).map TypedSpan.span := by
  rw [assembled, Graph.value_map, Graph.value_attachAll]

theorem holds_assembled {n : NodeId} {i : Text} : (assembled b root).Holds n (.string i) ↔
    (b.graph.attachAll (b.links root)).Reaches root n ∧ ∃ shared, b.Holds ⟨i, shared⟩ n := by
  refine (and_congr_left' (mem_traverseTree_assembled h)).trans (and_congr_right fun hreach => ?_)
  rw [value_assembled]
  constructor
  · rintro ⟨_, hvalue, hid⟩
    obtain ⟨s, hs, rfl⟩ := Option.map_eq_some_iff.1 hvalue
    obtain rfl : s.id = i := Value.string.inj (s.span_id.symm.trans hid)
    exact ⟨_, holds_of_reaches h hreach hs⟩
  · rintro ⟨shared, hholds⟩
    obtain ⟨s, hs, hkey⟩ := value_of_holds h hholds
    refine ⟨s.span, by rw [hs, Option.map_some], ?_⟩
    rw [s.span_id, show s.id = i from congrArg Key.id hkey]

end

deriving instance DecidableEq for Node, Graph, Assembled

/-- The spans of which a tree is made: those that are handed over, or what a repair makes of them. -/
inductive Given (sink : Sink) (spans : List Span) (history : Delivery) : Bool → List Span → Prop where
  | asTheyAre : Given sink spans history false spans
  | repaired {m : Merged} {after : Delivery}
      (hrun : (merge sink spans).run.run history = (.ok m, after)) :
      Given sink spans history true (m.spans spans)

theorem exists_typed {spans : List Span} (typed : ∀ s ∈ spans, s.WellTyped) :
    ∃ given : List TypedSpan, given.map TypedSpan.span = spans :=
  ⟨spans.pmap TypedSpan.mk typed, by simp [List.map_pmap]⟩

theorem run_buildTree (sink : Sink) (repairFirst : Bool) (history : Delivery) {spans : List Span}
    (typed : ∀ s ∈ spans, s.WellTyped) :
    ∃ given root b d, Given sink spans history repairFirst (given.map TypedSpan.span) ∧
      Builder.Ready TypedSpan.joined (registrations given) b root ∧
      (buildTree sink repairFirst spans).run.run history = (.ok (assembled b root), d) := by
  cases repairFirst with
  | false =>
      obtain ⟨given, rfl⟩ := exists_typed typed
      obtain ⟨root, b, d, hready, hrun⟩ := run_assemble sink given history
      exact ⟨given, root, b, d, .asTheyAre, hready, hrun⟩
  | true =>
      obtain ⟨m, after, hmerge, hm⟩ := wellTyped_merge sink history typed
      obtain ⟨given, hgiven⟩ := exists_typed hm
      obtain ⟨root, b, d, hready, hrun⟩ := run_assemble sink given after
      rw [hgiven] at hrun
      refine ⟨given, root, b, d, hgiven ▸ .repaired hmerge, hready, ?_⟩
      rw [buildTree, if_pos rfl, run_bind_ok hmerge, hrun]

end Trace

end SpanForest
