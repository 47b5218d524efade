import SpanForest.Proofs.Span.Gathered
import SpanForest.Proofs.Trace.Repaired

/-!
A repair loses nothing and makes nothing up. The spans, in stable cleanup order if there is a
repair, fall into blocks of neighbours, one for each span that comes out, and that span holds what
its block holds.
-/

namespace SpanForest.Trace

section

variable {traceId : Value} (hid : ∃ t, traceId = .string t)
include hid

theorem gathers_joinedAll {ps others : List Span} {s : Span} (hs : s.WellTyped)
    (hothers : ∀ p ∈ others, p.WellTyped ∧ p.legKey = s.legKey) (h : Span.Gathers ps s) :
    Span.Gathers (ps ++ others) (s.joinedAll (others.map (normalized traceId))) := by
  induction others generalizing ps s with
  | nil => rwa [List.append_nil]
  | cons p others ih =>
      obtain ⟨hp, hkey⟩ := hothers p List.mem_cons_self
      have ht : (normalized traceId p).WellTyped := (sound_normalized hid hp).wellTyped
      have hjoined : Span.Gathers (ps ++ [p]) (s.joined (normalized traceId p)) :=
        h.append ((Span.Gathers.single p).relabel _ _) hs ht hkey
      have hsame : (s.joined (normalized traceId p)).legKey = s.legKey := Span.legKey_joined hs ht hkey
      rw [List.append_cons]
      refine ih (Span.wellTyped_joined hs ht) (fun q hq => ?_) hjoined
      obtain ⟨hq, hqkey⟩ := hothers q (List.mem_cons_of_mem p hq)
      exact ⟨hq, hqkey.trans hsame.symm⟩

theorem gathers_mended {leg : Leg} (hleg : leg.Proper) :
    Span.Gathers leg.parts (mended traceId leg) := by
  have hfirst : leg.first.WellTyped := hleg.typed leg.first List.mem_cons_self
  have hone : Span.Gathers [leg.first] (normalized traceId leg.first) :=
    (Span.Gathers.single leg.first).relabel _ _
  refine gathers_joinedAll hid (sound_normalized hid hfirst).wellTyped (fun p hp => ?_) hone
  have hp : p ∈ leg.parts := List.mem_cons_of_mem leg.first hp
  exact ⟨hleg.typed p hp, hleg.oneKey p hp⟩

omit hid in
theorem gathers_adopting {ps : List Span} {s : Span} (h : Span.Gathers ps s)
    (previous : Option Span) : Span.Gathers ps (adopting previous s) := by
  cases previous with
  | none => exact h
  | some p =>
      rw [adopting]
      split
      · exact h.relabel _ _
      · exact h

theorem gathers_mendAll (previous : Option Span) {legs : List Leg}
    (hlegs : ∀ leg ∈ legs, leg.Proper) :
    List.Forall₂ Span.Gathers (legs.map Leg.parts) (mendAll traceId previous legs) := by
  induction legs generalizing previous with
  | nil => exact .nil
  | cons leg rest ih =>
      have hleg : Span.Gathers leg.parts (mended traceId leg) :=
        gathers_mended hid (hlegs leg List.mem_cons_self)
      exact .cons (gathers_adopting hleg previous)
        (ih _ fun m hm => hlegs m (List.mem_cons_of_mem leg hm))

end

theorem gathers_singletons (spans : List Span) :
    List.Forall₂ Span.Gathers (spans.map fun s => [s]) spans := by
  induction spans with
  | nil => exact .nil
  | cons s rest ih => exact .cons (.single s) ih

theorem flatten_singletons (spans : List Span) : (spans.map fun s => [s]).flatten = spans := by
  induction spans with
  | nil => rfl
  | cons s rest ih => rw [List.map_cons, List.flatten_cons, ih, List.singleton_append]

section

variable {blocks : List (List Span)} {spans : List Span}
  (h : List.Forall₂ Span.Gathers blocks spans)
include h

theorem mem_ids_of_gathers (i : Value) : i ∈ spans.map Span.id ↔ i ∈ blocks.flatten.map Span.id := by
  induction h with
  | nil => rfl
  | @cons block s blocks spans hblock _ ih =>
      have hid : ∀ p ∈ block, p.id = s.id := fun p hp => (Prod.mk.inj (hblock.oneLeg p hp)).1
      have hmem : i ∈ block.map Span.id ↔ i = s.id := by
        obtain ⟨p, hp⟩ := List.exists_mem_of_ne_nil block hblock.nonempty
        rw [List.mem_map]
        constructor
        · rintro ⟨q, hq, rfl⟩
          exact hid q hq
        · rintro rfl
          exact ⟨p, hp, hid p hp⟩
      rw [List.map_cons, List.mem_cons, List.flatten_cons, List.map_append, List.mem_append, hmem, ih]

theorem length_le_of_gathers : spans.length ≤ blocks.flatten.length := by
  induction h with
  | nil => exact Nat.le_refl 0
  | @cons block s blocks spans hblock _ ih =>
      have hpos : 0 < block.length := List.length_pos_iff.2 hblock.nonempty
      rw [List.length_cons, List.flatten_cons, List.length_append]
      omega

end

/-- Each span that comes out gathers a block of the spans, and the blocks make up all of them. -/
theorem merge_gathers (sink : Sink) (history : Delivery) {spans : List Span}
    (typed : ∀ s ∈ spans, s.WellTyped) :
    ∃ m after ordered blocks, (merge sink spans).run.run history = (.ok m, after) ∧
      Span.cleanupSort spans = .ok ordered ∧
      Sorting.StablyOrders Span.cleanupKey spans ordered ∧
      blocks.flatten = (if m = .unchanged then spans else ordered) ∧
      List.Forall₂ Span.Gathers blocks (m.spans spans) ∧
      (∀ i, i ∈ (m.spans spans).map Span.id ↔ i ∈ spans.map Span.id) ∧
      (m.spans spans).length ≤ spans.length := by
  obtain ⟨ordered, m, after, hsort, hrun, houtcome⟩ := merge_outcome sink history typed
  have hstable := Sorting.stablyOrders_sortStable Span.cleanupKey spans
  rw [Except.ok.inj ((Span.cleanupSort_eq typed).symm.trans hsort)] at hstable
  obtain ⟨blocks, hflatten, hblocks⟩ : ∃ blocks : List (List Span),
      blocks.flatten = (if m = .unchanged then spans else ordered) ∧
        List.Forall₂ Span.Gathers blocks (m.spans spans) := by
    obtain ⟨rfl, -⟩ | ⟨traceId, hid, rfl⟩ := houtcome
    · exact ⟨spans.map fun s => [s], flatten_singletons spans, gathers_singletons spans⟩
    · have hproper := (legs_spec fun s hs => typed s (hstable.perm.mem_iff.1 hs)).1
      exact ⟨_, flatMap_parts_legs ordered, gathers_mendAll hid none hproper⟩
  have hperm : blocks.flatten.Perm spans := by
    rw [hflatten]
    split
    · exact .refl spans
    · exact hstable.perm
  refine ⟨m, after, ordered, blocks, hrun, hsort, hstable, hflatten, hblocks, fun i => ?_, ?_⟩
  · rw [mem_ids_of_gathers hblocks, (hperm.map Span.id).mem_iff]
  · rw [← hperm.length_eq]
    exact length_le_of_gathers hblocks

theorem merge_gathers_callSpans : (∀ s ∈ callSpans, s.WellTyped) ∧
    ∃ m after ordered blocks, (merge Sink.quiet callSpans).run.run .empty = (.ok m, after) ∧
      Span.cleanupSort callSpans = .ok ordered ∧
      Sorting.StablyOrders Span.cleanupKey callSpans ordered ∧
      blocks.flatten = (if m = .unchanged then callSpans else ordered) ∧
      List.Forall₂ Span.Gathers blocks (m.spans callSpans) ∧
      (∀ i, i ∈ (m.spans callSpans).map Span.id ↔ i ∈ callSpans.map Span.id) ∧
      (m.spans callSpans).length ≤ callSpans.length :=
  ⟨wellTyped_callSpans, merge_gathers Sink.quiet .empty wellTyped_callSpans⟩

end SpanForest.Trace
