import SpanForest.Proofs.Span.Joined
import SpanForest.Trace.Repair

/-!
Spans of one trace in which there is nothing to repair. The scan finds a need exactly if they are
not of this sort, whatever trace id it goes by on the way.
-/

namespace SpanForest

theorem Span.Workable.traceLength {s : Span} (h : s.Workable) : ∃ n, s.traceId.length = .ok n := by
  obtain ⟨t, ht⟩ := h.traceId
  exact ⟨t.length, by rw [ht, Value.length_string]⟩

theorem Span.traceId_eq_string {spans : List Span} (typed : ∀ s ∈ spans, s.WellTyped) {v : Value}
    (h : v ∈ spans.map Span.traceId) : ∃ t, v = .string t := by
  obtain ⟨s, hs, rfl⟩ := List.mem_map.1 h
  exact (typed s hs).traceId

namespace Trace

/-- Nothing to do between two neighbours. -/
def Settled (s t : Span) : Prop := t.sameLeg s = false ∧ missesParent s t = false

structure Tidy (spans : List Span) : Prop where
  oneLength : ∀ s ∈ spans, ∀ t ∈ spans, s.traceId.length = t.traceId.length
  noOwnParent : ∀ s ∈ spans, s.isOwnParent = false
  settled : spans.IsChain Settled

theorem tidy_cons_iff {first : Span} {rest : List Span} {n : Nat}
    (hfirst : first.traceId.length = .ok n) : Tidy (first :: rest) ↔
      first.isOwnParent = false ∧ (∀ t ∈ rest, t.traceId.length = .ok n ∧ t.isOwnParent = false) ∧
        (first :: rest).IsChain Settled := by
  constructor
  · intro h
    refine ⟨h.noOwnParent first List.mem_cons_self, fun t ht => ?_, h.settled⟩
    have ht : t ∈ first :: rest := List.mem_cons_of_mem first ht
    exact ⟨(h.oneLength t ht first List.mem_cons_self).trans hfirst, h.noOwnParent t ht⟩
  · rintro ⟨hown, hrest, hsettled⟩
    have hlength : ∀ s ∈ first :: rest, s.traceId.length = .ok n ∧ s.isOwnParent = false := by
      intro s hs
      rcases List.mem_cons.1 hs with rfl | hs
      · exact ⟨hfirst, hown⟩
      · exact hrest s hs
    exact ⟨fun s hs t ht => (hlength s hs).1.trans (hlength t ht).1.symm,
      fun s hs => (hlength s hs).2, hsettled⟩

namespace Scan

theorem meet_spec {state : Scan} {first : Span} {n : Nat} (hstate : state.traceId.length = .ok n)
    (workable : first.Workable) :
    ∃ met m, state.meet first = .ok met ∧ met.traceId.length = .ok m ∧
      (met.traceId = state.traceId ∨ met.traceId = first.traceId) ∧
      (first.traceId.length = .ok n → m = n) ∧
      (met.needed = false ↔ state.needed = false ∧ first.traceId.length = .ok n ∧
        first.isOwnParent = false) := by
  obtain ⟨own, hown⟩ := workable.traceLength
  have hmeet : state.meet first = .ok ⟨if n ≠ fullLength then first.traceId else state.traceId,
      state.needed || own != n || first.isOwnParent⟩ := by
    rw [meet, hown, hstate]
    rfl
  have hneeded : (state.needed || own != n || first.isOwnParent) = false ↔
      state.needed = false ∧ first.traceId.length = .ok n ∧ first.isOwnParent = false := by
    rw [hown, Bool.or_eq_false_iff, Bool.or_eq_false_iff, bne_eq_false_iff_eq, Except.ok.injEq, and_assoc]
  by_cases hn : n ≠ fullLength
  · rw [if_pos hn] at hmeet
    refine ⟨_, own, hmeet, hown, .inr rfl, fun h => ?_, hneeded⟩
    exact Except.ok.inj (hown.symm.trans h)
  · rw [if_neg hn] at hmeet
    exact ⟨_, n, hmeet, hstate, .inl rfl, fun _ => rfl, hneeded⟩

theorem goOn_spec {state : Scan} (first : Span) {rest : List Span} {n : Nat}
    (workable : ∀ t ∈ rest, t.Workable) (hstate : state.traceId.length = .ok n) :
    ∃ final, state.goOn first rest = .ok final ∧
      (final.traceId = state.traceId ∨ final.traceId ∈ rest.map Span.traceId) ∧
      (final.needed = false ↔ state.needed = false ∧
        (∀ t ∈ rest, t.traceId.length = .ok n ∧ t.isOwnParent = false) ∧
        (first :: rest).IsChain Settled) := by
  induction rest generalizing state first n with
  | nil => exact ⟨state, rfl, .inl rfl, by simp⟩
  | cons next rest ih =>
      have hrest : ∀ t ∈ rest, t.Workable := fun t ht => workable t (List.mem_cons_of_mem next ht)
      rw [goOn, List.isChain_cons_cons]
      -- a further part of the leg is passed over, and that there is one is reason for a repair
      cases hleg : next.sameLeg first with
      | true =>
          have hflag : (state.flag true).traceId.length = .ok n := hstate
          obtain ⟨final, hrun, hid, hneeded⟩ := ih first hrest hflag
          refine ⟨final, hrun, hid.imp_right (List.mem_cons_of_mem _), ?_⟩
          rw [hneeded, flag, Bool.or_true]
          constructor
          · rintro ⟨h, -⟩
            cases h
          · rintro ⟨-, -, ⟨h, -⟩, -⟩
            rw [hleg] at h
            cases h
      | false =>
          have hflag : (state.flag (missesParent first next)).traceId.length = .ok n := hstate
          obtain ⟨met, m, hmeet, hm, hmetId, hsame, hmetNeeded⟩ :=
            meet_spec hflag (workable next List.mem_cons_self)
          obtain ⟨final, hrun, hid, hneeded⟩ := ih next hrest hm
          rw [if_neg Bool.false_ne_true, hmeet]
          refine ⟨final, hrun, ?_, ?_⟩
          · rcases hid with hid | hid
            · rw [hid, List.map_cons, List.mem_cons]
              exact hmetId.imp_right .inl
            · exact .inr (List.mem_cons_of_mem _ hid)
          · rw [hneeded, hmetNeeded, flag, Bool.or_eq_false_iff, List.forall_mem_cons]
            constructor
            · rintro ⟨⟨⟨hstill, hparent⟩, hlength, hown⟩, hall, hchain⟩
              rw [hsame hlength] at hall
              exact ⟨hstill, ⟨⟨hlength, hown⟩, hall⟩, ⟨hleg, hparent⟩, hchain⟩
            · rintro ⟨hstill, ⟨⟨hlength, hown⟩, hall⟩, ⟨-, hparent⟩, hchain⟩
              rw [hsame hlength]
              exact ⟨⟨⟨hstill, hparent⟩, hlength, hown⟩, hall, hchain⟩

end Scan

theorem scan_spec {traceId : Value} {first : Span} {rest : List Span}
    (workable : ∀ s ∈ first :: rest, s.Workable)
    (hstart : traceId ∈ (first :: rest).map Span.traceId) :
    ∃ found, scan traceId (first :: rest) = .ok found ∧
      found.traceId ∈ (first :: rest).map Span.traceId ∧
      (found.needed = false ↔ Tidy (first :: rest)) := by
  obtain ⟨start, hmem, rfl⟩ := List.mem_map.1 hstart
  obtain ⟨n, hn⟩ := (workable start hmem).traceLength
  have hstate : (Scan.mk start.traceId false).traceId.length = .ok n := hn
  obtain ⟨met, m, hmeet, hm, hmetId, hsame, hmetNeeded⟩ :=
    Scan.meet_spec hstate (workable first List.mem_cons_self)
  obtain ⟨found, hrun, hid, hneeded⟩ :=
    Scan.goOn_spec first (fun t ht => workable t (List.mem_cons_of_mem first ht)) hm
  refine ⟨found, ?_, ?_, ?_⟩
  · rw [scan, hmeet]
    exact hrun
  · rcases hid with hid | hid
    · rcases hmetId with hmetId | hmetId
      · rw [hid, hmetId]
        exact hstart
      · rw [hid, hmetId]
        exact List.mem_cons_self
    · exact List.mem_cons_of_mem _ hid
  · rw [hneeded, hmetNeeded]
    constructor
    · rintro ⟨⟨-, hlength, hown⟩, hall, hchain⟩
      rw [hsame hlength] at hall
      exact (tidy_cons_iff hlength).2 ⟨hown, hall, hchain⟩
    · intro h
      have hlength := (h.oneLength first List.mem_cons_self start hmem).trans hn
      rw [hsame hlength]
      obtain ⟨hown, hall, hchain⟩ := (tidy_cons_iff hlength).1 h
      exact ⟨⟨rfl, hlength, hown⟩, hall, hchain⟩

end Trace

end SpanForest
