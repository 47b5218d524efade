import SpanForest.Proofs.Span.Associative
import SpanForest.Proofs.Trace.Assembled
import SpanForest.Proofs.Tree.Condensed

/-!
Merging before building against merging while building. A repair joins the parts of each leg, and
the builder then joins the legs of each key; the builder alone joins the spans of each key one by
one. On consistent spans in cleanup order both come to one tree. Spans of one key that name
different parents are excluded, since the two ways part on them.
-/

namespace SpanForest

namespace Span

structure Alike (s t : Span) : Prop where
  id : t.id = s.id
  shared : t.isShared = s.isShared
  parentId : t.parentId = s.parentId

namespace Alike

variable {r s t : Span}

theorem refl (s : Span) : Alike s s := ⟨rfl, rfl, rfl⟩

theorem symm (h : Alike s t) : Alike t s := ⟨h.id.symm, h.shared.symm, h.parentId.symm⟩

theorem trans (hrs : Alike r s) (hst : Alike s t) : Alike r t :=
  ⟨hst.id.trans hrs.id, hst.shared.trans hrs.shared, hst.parentId.trans hrs.parentId⟩

theorem isOwnParent_eq (h : Alike s t) : t.isOwnParent = s.isOwnParent := by
  rw [isOwnParent, isOwnParent, h.id, h.parentId]

theorem joined (hs : s.WellTyped) (ht : t.WellTyped) (h : Alike s t) : Alike s (s.joined t) := by
  refine ⟨rfl, ?_, ?_⟩
  · have hflag : (s.joined t).isShared = (s.isShared || t.isShared) :=
      combineFlag_isTrue hs.shared ht.shared
    rw [hflag, h.shared, Bool.or_self]
  · show s.parentId.orElse t.parentId = s.parentId
    rw [h.parentId, Value.orElse_self]

end Alike

theorem alike_joinedAll {s : Span} {others : List Span} (hs : s.WellTyped)
    (hothers : ∀ t ∈ others, t.WellTyped ∧ Alike s t) :
    (s.joinedAll others).WellTyped ∧ Alike s (s.joinedAll others) := by
  refine joinedAll_induction (P := fun u => u.WellTyped ∧ Alike s u) ⟨hs, .refl s⟩ ?_
  rintro u t ⟨hu, hsu⟩ ht
  obtain ⟨ht, hst⟩ := hothers t ht
  exact ⟨wellTyped_joined hu ht, hsu.trans (.joined hu ht (hsu.symm.trans hst))⟩

inductive Fused : List Span → List Span → Prop where
  | nil : Fused [] []
  | keep (s : Span) {spans spans'} (h : Fused spans spans') : Fused (s :: spans) (s :: spans')
  | fuse {s t : Span} (alike : Alike s t) {spans spans'} (h : Fused (s.joined t :: spans) spans') :
      Fused (s :: t :: spans) spans'

namespace Fused

theorem refl (spans : List Span) : Fused spans spans := by
  induction spans with
  | nil => exact .nil
  | cons s spans ih => exact .keep s ih

theorem block {spans spans' : List Span} (h : Fused spans spans') {s : Span} {others : List Span}
    (hs : s.WellTyped) (hothers : ∀ t ∈ others, t.WellTyped ∧ Alike s t) :
    Fused (s :: others ++ spans) (s.joinedAll others :: spans') := by
  induction others generalizing s with
  | nil => exact .keep s h
  | cons t others ih =>
      obtain ⟨ht, hst⟩ := hothers t List.mem_cons_self
      have hjoined : Alike s (s.joined t) := .joined hs ht hst
      refine .fuse hst (ih (wellTyped_joined hs ht) fun u hu => ?_)
      obtain ⟨hu, hsu⟩ := hothers u (List.mem_cons_of_mem t hu)
      exact ⟨hu, hjoined.symm.trans hsu⟩

end Fused

end Span

namespace TypedSpan

theorem joined_assoc (r s t : TypedSpan) : (r.joined s).joined t = r.joined (s.joined t) := by
  simp only [joined, mk.injEq]
  exact Span.joined_assoc r.typed s.typed t.typed

theorem registration_of_alike {s t : TypedSpan} (h : s.span.Alike t.span) :
    t.registration = ⟨s.parentId, s.id, s.span.isShared, t⟩ := by
  rw [registration, parentId, id, h.parentId, h.id, h.shared]
  rfl

end TypedSpan

namespace Trace

/-- Spans in cleanup order that agree where a repair would step in: there is one length of trace id,
spans of one key name one parent, which is not their own id, and a shared span names a parent if an
unshared span of its id does. -/
structure Consistent (spans : List Span) : Prop where
  inOrder : spans.Pairwise fun s t => t.cleanupBefore s = .ok false
  oneLength : ∀ s ∈ spans, ∀ t ∈ spans, s.traceId.length = t.traceId.length
  oneParent : ∀ s ∈ spans, ∀ t ∈ spans, s.id = t.id → s.isShared = t.isShared →
    s.parentId = t.parentId
  noOwnParent : ∀ s ∈ spans, s.isOwnParent = false
  noneMissing : ∀ s ∈ spans, s.isShared = true → s.parentId = .null →
    ∀ t ∈ spans, t.id = s.id → t.isShared = false → t.parentId = .null

def joinedLeg (leg : Leg) : Span := leg.first.joinedAll leg.others

structure Leg.Within (spans : List Span) (leg : Leg) : Prop where
  mem : ∀ p ∈ leg.parts, p ∈ spans
  others : ∀ p ∈ leg.others, p.WellTyped ∧ leg.first.Alike p

theorem Leg.Within.alike_joined {spans : List Span} {leg : Leg} (h : leg.Within spans)
    (typed : ∀ s ∈ spans, s.WellTyped) :
    (joinedLeg leg).WellTyped ∧ leg.first.Alike (joinedLeg leg) :=
  Span.alike_joinedAll (typed _ (h.mem _ List.mem_cons_self)) h.others

theorem fused_joinedLegs {spans : List Span} (typed : ∀ s ∈ spans, s.WellTyped) {legs : List Leg}
    (h : ∀ leg ∈ legs, leg.Within spans) :
    Span.Fused (legs.flatMap Leg.parts) (legs.map joinedLeg) := by
  induction legs with
  | nil => exact .nil
  | cons leg legs ih =>
      have hleg := h leg List.mem_cons_self
      have hfirst := typed _ (hleg.mem _ List.mem_cons_self)
      exact (ih fun m hm => h m (List.mem_cons_of_mem leg hm)).block hfirst hleg.others

namespace Consistent

variable {spans : List Span} (h : Consistent spans) (typed : ∀ s ∈ spans, s.WellTyped)
include h typed

theorem within_legs : ∀ leg ∈ legs spans, leg.Within spans := by
  intro leg hleg
  have hproper := (legs_spec typed).1 leg hleg
  have hmem (p : Span) (hp : p ∈ leg.parts) : p ∈ spans := mem_of_mem_parts hleg hp
  refine ⟨hmem, fun p hp => ?_⟩
  have hp : p ∈ leg.parts := List.mem_cons_of_mem leg.first hp
  obtain ⟨hid, hkey⟩ := Prod.mk.inj (hproper.oneKey p hp)
  have hshared := (Prod.mk.inj hkey).1
  have hparent := h.oneParent p (hmem p hp) leg.first (hmem _ List.mem_cons_self) hid hshared
  exact ⟨typed p (hmem p hp), hid, hshared, hparent⟩

variable {traceId : Value} (hid : traceId ∈ spans.map Span.traceId)

include hid in
theorem mended_eq {leg : Leg} (hleg : leg.Within spans) : mended traceId leg = joinedLeg leg := by
  obtain ⟨own, hown, rfl⟩ := List.mem_map.1 hid
  have hsame (p : Span) (hp : p ∈ leg.parts) : normalized own.traceId p = p := by
    have hp := hleg.mem p hp
    exact normalized_eq_self (typed own hown).traceId (typed p hp) (h.oneLength p hp own hown)
      (h.noOwnParent p hp)
  have hothers : leg.others.map (normalized own.traceId) = leg.others :=
    (List.map_congr_left fun p hp => hsame p (List.mem_cons_of_mem _ hp)).trans (List.map_id _)
  rw [mended, hsame leg.first List.mem_cons_self, hothers, joinedLeg]

theorem adopting_eq {previous : Option Span} {s t : Span} (hs : s ∈ spans) (hst : s.Alike t)
    (hprevious : ∀ p ∈ previous, ∃ q ∈ spans, q.Alike p) : adopting previous t = t := by
  cases previous with
  | none => rfl
  | some p =>
      obtain ⟨q, hq, hqp⟩ := hprevious p rfl
      refine if_neg fun hmisses => ?_
      obtain ⟨hid, hplain, hshared, hnull, hparent⟩ := missesParent_iff.1 hmisses
      obtain ⟨i, hi⟩ := (typed s hs).id
      obtain ⟨j, hj⟩ := (typed q hq).id
      rw [hst.id, hqp.id, hi, hj, Value.same_string, beq_iff_eq] at hid
      rw [hst.shared] at hshared
      rw [hqp.shared] at hplain
      rw [hst.parentId, Value.isNull_iff] at hnull
      have hnone := h.noneMissing s hs hshared hnull q hq (by rw [hi, hj, hid]) hplain
      rw [hqp.parentId, hnone] at hparent
      cases hparent

include hid in
theorem mendAll_eq {legs : List Leg} (hlegs : ∀ leg ∈ legs, leg.Within spans)
    (previous : Option Span) (hprevious : ∀ p ∈ previous, ∃ q ∈ spans, q.Alike p) :
    mendAll traceId previous legs = legs.map joinedLeg := by
  induction legs generalizing previous with
  | nil => rfl
  | cons leg rest ih =>
      have hleg := hlegs leg List.mem_cons_self
      have hfirst := hleg.mem _ List.mem_cons_self
      have hjoined := (hleg.alike_joined typed).2
      have hadopt : adopting previous (mended traceId leg) = joinedLeg leg := by
        rw [h.mended_eq typed hid hleg]
        exact h.adopting_eq typed hfirst hjoined hprevious
      rw [mendAll, hadopt, List.map_cons, ih (fun m hm => hlegs m (List.mem_cons_of_mem leg hm))]
      intro p hp
      rw [← Option.some.inj hp]
      exact ⟨leg.first, hfirst, hjoined⟩

include hid in
theorem fused_mendAll : Span.Fused spans (mendAll traceId none (legs spans)) := by
  have hwithin := h.within_legs typed
  have hfused := fused_joinedLegs typed hwithin
  rwa [flatMap_parts_legs, ← h.mendAll_eq typed hid hwithin none nofun] at hfused

theorem fused_merge (sink : Sink) (history : Delivery) {m : Merged} {after : Delivery}
    (hrun : (merge sink spans).run.run history = (.ok m, after)) :
    Span.Fused spans (m.spans spans) := by
  match spans, h, typed, hrun with
  | [], _, _, hrun =>
      cases hrun
      exact .refl _
  | [s], _, _, hrun =>
      cases hrun
      exact .refl _
  | first :: second :: rest, h, typed, hrun =>
      obtain ⟨ordered, found, after', hsort, -, -, -, hid, -, -, hmerge⟩ :=
        merge_spec sink history typed
      have hordered := Span.cleanupSort_of_inOrder typed ((Span.inOrder_iff typed).2 h.inOrder)
      obtain rfl : first :: second :: rest = ordered := Except.ok.inj (hordered.symm.trans hsort)
      rw [hrun] at hmerge
      cases hneeded : found.needed with
      | false =>
          rw [hneeded, if_neg Bool.false_ne_true] at hmerge
          cases hmerge
          exact .refl _
      | true =>
          rw [hneeded, if_pos rfl] at hmerge
          cases hmerge
          exact h.fused_mendAll typed hid

theorem fused_given {sink : Sink} {history : Delivery} {repairFirst : Bool} {spans' : List Span}
    (hgiven : Given sink spans history repairFirst spans') : Span.Fused spans spans' := by
  cases hgiven with
  | asTheyAre => exact .refl spans
  | repaired hrun => exact h.fused_merge typed sink history hrun

end Consistent

theorem Given.eq_of_false {sink : Sink} {spans spans' : List Span} {history : Delivery}
    (h : Given sink spans history false spans') : spans' = spans := by
  cases h
  rfl

section

open Registered

variable {given given' : List TypedSpan}

theorem registrations_cons (s : TypedSpan) (given : List TypedSpan) : registrations (s :: given) =
    if s.span.isOwnParent then registrations given else s.registration :: registrations given := by
  rw [registrations, List.filter_cons]
  cases s.span.isOwnParent <;> rfl

theorem condensed_registrations
    (h : Span.Fused (given.map TypedSpan.span) (given'.map TypedSpan.span)) :
    Condensed TypedSpan.joined (registrations given) (registrations given') := by
  generalize hspans : given.map TypedSpan.span = spans at h
  generalize hspans' : given'.map TypedSpan.span = spans' at h
  induction h generalizing given given' with
  | nil =>
      rw [List.map_eq_nil_iff.1 hspans, List.map_eq_nil_iff.1 hspans']
      exact .nil
  | keep s _ ih =>
      obtain ⟨t, given, rfl, rfl, hrest⟩ := List.map_eq_cons_iff.1 hspans
      obtain ⟨t', given', rfl, ht, hrest'⟩ := List.map_eq_cons_iff.1 hspans'
      obtain rfl : t' = t := by
        cases t
        cases t'
        simp_all
      rw [registrations_cons, registrations_cons]
      split
      · exact ih hrest hrest'
      · exact .keep _ (ih hrest hrest')
  | fuse alike _ ih =>
      obtain ⟨s, rest, rfl, rfl, hrest⟩ := List.map_eq_cons_iff.1 hspans
      obtain ⟨t, given, rfl, rfl, hgiven⟩ := List.map_eq_cons_iff.1 hrest
      -- spans that are alike name one parent, so either all of them are registered or none is
      have hjoined : s.span.Alike (s.joined t).span := .joined s.typed t.typed alike
      have hih : Condensed TypedSpan.joined (registrations (s.joined t :: given))
          (registrations given') :=
        ih (by rw [List.map_cons, hgiven]; rfl) hspans'
      rw [registrations_cons, hjoined.isOwnParent_eq, TypedSpan.registration_of_alike hjoined] at hih
      rw [registrations_cons, registrations_cons, alike.isOwnParent_eq,
        TypedSpan.registration_of_alike alike]
      cases hown : s.span.isOwnParent with
      | true =>
          rw [hown, if_pos rfl] at hih
          exact hih
      | false =>
          rw [hown, if_neg Bool.false_ne_true] at hih
          exact .fuse s t hih

theorem uniform_registrations {spans : List Span} (h : Consistent spans)
    (hgiven : given.map TypedSpan.span = spans) : Uniform (registrations given) := by
  intro r hr r' hr' hkey
  obtain ⟨s, hs, -, rfl⟩ := mem_registrations.1 hr
  obtain ⟨t, ht, -, rfl⟩ := mem_registrations.1 hr'
  obtain ⟨hid, hshared⟩ := Key.mk.inj hkey
  have hs : s.span ∈ spans := hgiven ▸ List.mem_map_of_mem hs
  have ht : t.span ∈ spans := hgiven ▸ List.mem_map_of_mem ht
  have hid : s.span.id = t.span.id := by
    rw [s.span_id, t.span_id]
    exact congrArg Value.string hid
  exact congrArg Value.string? (h.oneParent _ hs _ ht hid hshared)

end

/-- On consistent spans it does not matter whether they are repaired before they are put in a tree. -/
theorem buildTree_mergedFirst (sink sink' : Sink) (history history' : Delivery) {spans : List Span}
    (typed : ∀ s ∈ spans, s.WellTyped) (h : Consistent spans) :
    ∃ t t' after after' tree, (buildTree sink true spans).run.run history = (.ok t, after) ∧
      (buildTree sink' false spans).run.run history' = (.ok t', after') ∧
      t.outline = some tree ∧ t'.outline = some tree := by
  obtain ⟨given', root', b', d', hgiven', hready', hrun'⟩ :=
    run_buildTree sink true history typed
  obtain ⟨given, root, b, d, hgiven, hready, hrun⟩ := run_buildTree sink' false history' typed
  have hspans : given.map TypedSpan.span = spans := hgiven.eq_of_false
  have hfused := h.fused_given typed hgiven'
  have hcondensed := condensed_registrations (hspans.symm ▸ hfused)
  have hagree := hcondensed.agree TypedSpan.joined_assoc (uniform_registrations h hspans)
  have hcorresponds := (Builder.corresponds_of_agree hready hready' hagree).map TypedSpan.span
  obtain ⟨tree, htree, htree'⟩ := hcorresponds.outline_eq (.inl ⟨rfl, rfl⟩)
    (wellLinked_assembled hready) (wellLinked_assembled hready')
  exact ⟨_, _, _, _, tree, hrun', hrun, htree', htree⟩

def relayedSpans : List Span :=
  [{ traceId := .string "1", id := .string "a" },
    { traceId := .string "1", id := .string "x", parentId := .string "a",
      localEndpoint := some { serviceName := .string "api" } },
    { traceId := .string "1", id := .string "x", parentId := .string "a",
      localEndpoint := some { serviceName := .string "web" } },
    { traceId := .string "1", id := .string "x", parentId := .string "a",
      localEndpoint := some { serviceName := .string "web", port := .int 80 } },
    { traceId := .string "1", id := .string "x", parentId := .string "a", shared := .bool true }]

theorem buildTree_mergedFirst_relayedSpans : (∀ s ∈ relayedSpans, s.WellTyped) ∧
    Consistent relayedSpans ∧ ∃ t t' after after' tree,
      (buildTree Sink.quiet true relayedSpans).run.run .empty = (.ok t, after) ∧
      (buildTree Sink.failing false relayedSpans).run.run .empty = (.ok t', after') ∧
      t.outline = some tree ∧ t'.outline = some tree := by
  have endpoint (name : Text) {port : Value} (hport : port.IsOptionalInt) :
      ∀ e ∈ some ({ serviceName := .string name, port } : Endpoint), e.WellTyped := by
    intro e he
    rw [← Option.some.inj he]
    exact ⟨.present name, .absent, .absent, hport⟩
  have typed : ∀ s ∈ relayedSpans, s.WellTyped := by
    intro s hs
    simp only [relayedSpans, List.mem_cons, List.not_mem_nil, or_false] at hs
    rcases hs with rfl | rfl | rfl | rfl | rfl
    · exact Span.wellTyped_bare "1" "a" .absent .absent nofun
    · exact Span.wellTyped_bare "1" "x" (.present "a") .absent (endpoint "api" .absent)
    · exact Span.wellTyped_bare "1" "x" (.present "a") .absent (endpoint "web" .absent)
    · exact Span.wellTyped_bare "1" "x" (.present "a") .absent (endpoint "web" (.present 80))
    · exact Span.wellTyped_bare "1" "x" (.present "a") (.present true) nofun
  have ordered : relayedSpans.Pairwise fun s t => (t.cleanupBefore s).toOption = some false := by
    decide +kernel
  have short : ∀ s ∈ relayedSpans, s.traceId.length.toOption = some 1 := by decide
  have consistent : Consistent relayedSpans :=
    { inOrder := ordered.imp eq_ok_of_toOption
      oneLength := fun s hs t ht =>
        (eq_ok_of_toOption (short s hs)).trans (eq_ok_of_toOption (short t ht)).symm
      oneParent := by decide
      noOwnParent := by decide
      noneMissing := by decide }
  exact ⟨typed, consistent,
    buildTree_mergedFirst Sink.quiet Sink.failing .empty .empty typed consistent⟩

end Trace

end SpanForest
