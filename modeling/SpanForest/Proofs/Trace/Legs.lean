import Mathlib.Data.List.SplitBy
import SpanForest.Proofs.Span.CleanupKey
import SpanForest.Proofs.Span.Joined
import SpanForest.Trace.Repair

/-!
The legs of spans of the declared kinds. The parts of a leg have one key and neighbouring legs have
two; the first parts stand in the order of the spans, and every span is a leg alone if no two
neighbours are parts of one.
-/

namespace SpanForest

namespace Span

def cleanupKeyAt (leg : Value × Bool × Option Endpoint) :
    Text ×ₗ Bool ×ₗ WithBot Endpoint.CleanupKey :=
  toLex (leg.1.textOrEmpty, toLex (leg.2.1, Endpoint.optionalKey leg.2.2))

theorem inOrder_iff_legKey {spans : List Span} : Sorting.InOrder cleanupKey spans ↔
    (spans.map legKey).Pairwise fun k l => cleanupKeyAt k ≤ cleanupKeyAt l := by
  rw [List.pairwise_map]
  rfl

end Span

namespace Trace

structure Leg.Proper (leg : Leg) : Prop where
  typed : ∀ p ∈ leg.parts, p.WellTyped
  oneKey : ∀ p ∈ leg.parts, p.legKey = leg.first.legKey

def Leg.Apart (leg next : Leg) : Prop := leg.first.legKey ≠ next.first.legKey

theorem Leg.parts_ne_nil (leg : Leg) : leg.parts ≠ [] := List.cons_ne_nil leg.first leg.others

theorem Leg.proper_single {s : Span} (typed : s.WellTyped) : Leg.Proper ⟨s, []⟩ := by
  constructor
  · intro p hp
    rwa [List.mem_singleton.1 hp]
  · intro p hp
    rw [List.mem_singleton.1 hp]

theorem Leg.Proper.cons {leg : Leg} (h : leg.Proper) {s : Span} (typed : s.WellTyped)
    (hkey : leg.first.legKey = s.legKey) : Leg.Proper ⟨s, leg.parts⟩ := by
  constructor
  · intro p hp
    rcases List.mem_cons.1 hp with rfl | hp
    · exact typed
    · exact h.typed p hp
  · intro p hp
    rcases List.mem_cons.1 hp with rfl | hp
    · rfl
    · exact (h.oneKey p hp).trans hkey

theorem exists_legs_cons (s : Span) (rest : List Span) :
    ∃ others more, legs (s :: rest) = ⟨s, others⟩ :: more := by
  rw [legs]
  split
  · exact ⟨[], [], rfl⟩
  · split
    · exact ⟨_, _, rfl⟩
    · exact ⟨[], _, rfl⟩

theorem exists_legs_cons_cons {s t : Span} (rest : List Span) (hs : s.WellTyped) (ht : t.WellTyped) :
    ∃ others more, legs (t :: rest) = ⟨t, others⟩ :: more ∧ legs (s :: t :: rest) =
      if t.legKey = s.legKey then ⟨s, t :: others⟩ :: more else ⟨s, []⟩ :: ⟨t, others⟩ :: more := by
  obtain ⟨others, more, hlegs⟩ := exists_legs_cons t rest
  refine ⟨others, more, hlegs, ?_⟩
  rw [legs, hlegs]
  dsimp only
  have hsame := Span.sameLeg_iff ht hs
  by_cases hkey : t.legKey = s.legKey
  · rw [if_pos (hsame.2 hkey), if_pos hkey]
    rfl
  · rw [if_neg (mt hsame.1 hkey), if_neg hkey]

theorem first_legs_sublist (spans : List Span) : ((legs spans).map Leg.first).Sublist spans := by
  induction spans with
  | nil => exact .slnil
  | cons s rest ih =>
      rw [legs]
      cases hlegs : legs rest with
      | nil => exact (List.nil_sublist rest).cons_cons s
      | cons leg others =>
          rw [hlegs] at ih
          dsimp only
          split
          · exact ((List.sublist_cons_self _ _).trans ih).cons_cons s
          · exact ih.cons_cons s

theorem mem_of_mem_parts {spans : List Span} {leg : Leg} (hleg : leg ∈ legs spans) {p : Span}
    (hp : p ∈ leg.parts) : p ∈ spans := by
  rw [← flatMap_parts_legs spans]
  exact List.mem_flatMap.2 ⟨leg, hleg, hp⟩

theorem exists_mem_parts {spans : List Span} {s : Span} (hs : s ∈ spans) :
    ∃ leg ∈ legs spans, s ∈ leg.parts := by
  rw [← flatMap_parts_legs spans] at hs
  exact List.mem_flatMap.1 hs

theorem legs_of_apart {spans : List Span} (apart : spans.IsChain fun s t => t.sameLeg s = false) :
    legs spans = spans.map fun s => ⟨s, []⟩ := by
  induction spans with
  | nil => rfl
  | cons s rest ih =>
      cases rest with
      | nil => rfl
      | cons t rest =>
          obtain ⟨hsame, hrest⟩ := List.isChain_cons_cons.1 apart
          rw [legs, ih hrest, List.map_cons]
          dsimp only
          rw [hsame, if_neg Bool.false_ne_true]
          rfl

variable {spans : List Span} (typed : ∀ s ∈ spans, s.WellTyped)
include typed

theorem legs_spec : (∀ leg ∈ legs spans, leg.Proper) ∧ (legs spans).IsChain Leg.Apart := by
  induction spans with
  | nil => exact ⟨nofun, .nil⟩
  | cons s rest ih =>
      have hs : s.WellTyped := typed s List.mem_cons_self
      obtain ⟨hproper, hapart⟩ := ih fun t ht => typed t (List.mem_cons_of_mem s ht)
      rw [legs]
      cases hlegs : legs rest with
      | nil => exact ⟨fun leg hleg => List.mem_singleton.1 hleg ▸ Leg.proper_single hs, .singleton _⟩
      | cons leg others =>
          rw [hlegs] at hproper hapart
          have hleg : leg.Proper := hproper leg List.mem_cons_self
          have hfirst : leg.first.WellTyped := hleg.typed leg.first List.mem_cons_self
          dsimp only
          -- legs grow at the front: the new span is compared with the first part of the leg behind it
          cases hsame : leg.first.sameLeg s with
          | true =>
              have hkey : leg.first.legKey = s.legKey := (Span.sameLeg_iff hfirst hs).1 hsame
              constructor
              · intro m hm
                rcases List.mem_cons.1 hm with rfl | hm
                · exact hleg.cons hs hkey
                · exact hproper m (List.mem_cons_of_mem leg hm)
              · obtain ⟨hnext, hothers⟩ := List.isChain_cons.1 hapart
                exact List.isChain_cons.2 ⟨fun m hm h => hnext m hm (hkey.trans h), hothers⟩
          | false =>
              constructor
              · intro m hm
                rcases List.mem_cons.1 hm with rfl | hm
                · exact Leg.proper_single hs
                · exact hproper m hm
              · refine .cons_cons (fun h => ?_) hapart
                rw [(Span.sameLeg_iff hfirst hs).2 h.symm] at hsame
                cases hsame

theorem parts_legs : (legs spans).map Leg.parts = spans.splitBy fun s t => s.legKey == t.legKey := by
  obtain ⟨hproper, hapart⟩ := legs_spec typed
  refine (List.splitBy_eq_iff.2 ⟨?_, ?_, ?_, ?_⟩).symm
  · rw [← List.flatMap_def, flatMap_parts_legs]
  · intro hnil
    obtain ⟨leg, -, hparts⟩ := List.mem_map.1 hnil
    exact leg.parts_ne_nil hparts
  · intro parts hparts
    obtain ⟨leg, hleg, rfl⟩ := List.mem_map.1 hparts
    have hkey := (hproper leg hleg).oneKey
    refine (List.pairwise_of_forall_mem_list fun p hp q hq => ?_).isChain
    rw [hkey p hp, hkey q hq, beq_self_eq_true]
  · rw [List.isChain_map]
    refine hapart.imp_of_mem_imp fun leg next hleg _ hne => ?_
    refine ⟨leg.parts_ne_nil, next.parts_ne_nil, beq_false_of_ne ?_⟩
    rw [(hproper leg hleg).oneKey _ (List.getLast_mem _)]
    exact hne

end Trace

end SpanForest
