import SpanForest.Proofs.Trace.Repaired

/-!
Spans of a trace in the order of their arrival. How those with different cleanup keys are mixed does
not matter to the cleanup order; and where all trace ids have one length, the trace id that the scan
goes by, which starts from the first arrival, replaces none. So nothing of that order is left in
what a repair comes to. The sink may be told different trace ids, so only the results are compared.
-/

namespace SpanForest.Trace

theorem normalized_of_length {traceId : Value} (hid : ∃ t, traceId = .string t) {s : Span}
    (hs : ∃ t, s.traceId = .string t) (hlength : s.traceId.length = traceId.length) :
    normalized traceId s = { s with parentId := if s.isOwnParent then .null else s.parentId } := by
  rw [Value.length_eq hs, Value.length_eq hid, Except.ok.injEq] at hlength
  rw [normalized, if_neg (not_not.2 hlength)]

theorem mendAll_congr {traceId traceId' : Value} {legs : List Leg}
    (h : ∀ leg ∈ legs, ∀ p ∈ leg.parts, normalized traceId p = normalized traceId' p)
    (previous : Option Span) : mendAll traceId previous legs = mendAll traceId' previous legs := by
  induction legs generalizing previous with
  | nil => rfl
  | cons leg rest ih =>
      obtain ⟨hleg, hrest⟩ := List.forall_mem_cons.1 h
      have hmended : mended traceId leg = mended traceId' leg := by
        obtain ⟨hfirst, hothers⟩ := List.forall_mem_cons.1 hleg
        rw [mended, mended, hfirst, List.map_congr_left hothers]
      rw [mendAll, mendAll, hmended, ih hrest]

section

variable {spans : List Span} (typed : ∀ s ∈ spans, s.WellTyped) {n : Nat}
  (hlength : ∀ s ∈ spans, s.traceId.length = .ok n)
include typed hlength

theorem merge_of_oneLength (sink : Sink) (history : Delivery) (hmany : 1 < spans.length)
    {traceId : Value} (hid : ∃ t, traceId = .string t) (htraceId : traceId.length = .ok n) :
    ∃ ordered m after, Span.cleanupSort spans = .ok ordered ∧
      (merge sink spans).run.run history = (.ok m, after) ∧
      (Tidy ordered ∧ m = .unchanged ∨
        ¬ Tidy ordered ∧ m = .repaired (mendAll traceId none (legs ordered))) := by
  obtain ⟨first, second, rest, rfl⟩ : ∃ first second rest, spans = first :: second :: rest := by
    match spans, hmany with
    | first :: second :: rest, _ => exact ⟨first, second, rest, rfl⟩
  obtain ⟨ordered, found, after, hsort, -, htyped, -, hfound, hneeded, -, hmerge⟩ :=
    merge_spec sink history typed
  have hperm := Span.perm_of_cleanupSort typed hsort
  by_cases htidy : Tidy ordered
  · rw [if_neg (by rw [hneeded.2 htidy]; exact Bool.false_ne_true)] at hmerge
    exact ⟨ordered, _, _, hsort, hmerge, .inl ⟨htidy, rfl⟩⟩
  · have hnormalized : ∀ p ∈ ordered, normalized found.traceId p = normalized traceId p := by
      intro p hp
      have hpid := (htyped p hp).traceId
      have hpn := hlength p (hperm.mem_iff.1 hp)
      obtain ⟨s, hs, hsid⟩ := List.mem_map.1 hfound
      rw [normalized_of_length hid hpid (hpn.trans htraceId.symm),
        normalized_of_length (hsid ▸ (htyped s hs).traceId) hpid
          (hpn.trans (hsid ▸ hlength s (hperm.mem_iff.1 hs)).symm)]
    rw [if_pos (Bool.eq_true_of_not_eq_false (mt hneeded.1 htidy)),
      mendAll_congr (fun leg hleg p hp => hnormalized p (mem_of_mem_parts hleg hp)) none] at hmerge
    exact ⟨ordered, _, _, hsort, hmerge, .inr ⟨htidy, rfl⟩⟩

end

theorem merge_of_length_le_one (sink : Sink) (history : Delivery) {spans : List Span}
    (h : spans.length ≤ 1) : (merge sink spans).run.run history = (.ok .unchanged, history) := by
  match spans, h with
  | [], _ => rfl
  | [_], _ => rfl

/-- Spans that arrive mixed in another way, those of one cleanup key in the same order, are both times
left as they were given or both times repaired, and then what comes of them is the same. -/
theorem merge_rearranged (sink sink' : Sink) (history history' : Delivery) {spans arrived : List Span}
    (typed : ∀ s ∈ spans, s.WellTyped)
    (oneLength : ∀ s ∈ spans, ∀ t ∈ spans, s.traceId.length = t.traceId.length)
    (h : Sorting.StablyRearranges Span.cleanupKey spans arrived) :
    ∃ m after after', (merge sink spans).run.run history = (.ok m, after) ∧
      (merge sink' arrived).run.run history' = (.ok m, after') := by
  have typed' : ∀ s ∈ arrived, s.WellTyped := fun s hs => typed s (h.perm.mem_iff.1 hs)
  rcases Nat.lt_or_ge 1 spans.length with hmany | hfew
  · obtain ⟨s, hs⟩ := List.exists_mem_of_length_pos (Nat.lt_of_succ_lt hmany)
    obtain ⟨n, hn⟩ := (typed s hs).workable.traceLength
    have hlength : ∀ t ∈ spans, t.traceId.length = .ok n := fun t ht => (oneLength t ht s hs).trans hn
    have hlength' : ∀ t ∈ arrived, t.traceId.length = .ok n :=
      fun t ht => hlength t (h.perm.mem_iff.1 ht)
    obtain ⟨ordered, m, after, hsort, hrun, houtcome⟩ :=
      merge_of_oneLength typed hlength sink history hmany (typed s hs).traceId hn
    obtain ⟨ordered', m', after', hsort', hrun', houtcome'⟩ :=
      merge_of_oneLength typed' hlength' sink' history' (h.perm.length_eq ▸ hmany) (typed s hs).traceId hn
    -- the sort is stable, and the spans of each key came in one order
    obtain rfl : ordered' = ordered := by
      rw [Span.cleanupSort_eq typed', Sorting.sortStable_of_stablyRearranges _ h,
        ← Span.cleanupSort_eq typed, hsort] at hsort'
      exact (Except.ok.inj hsort').symm
    have hsame : m' = m := by
      rcases houtcome with ⟨htidy, rfl⟩ | ⟨htidy, rfl⟩
      · exact (houtcome'.resolve_right fun hrepaired => hrepaired.1 htidy).2
      · exact (houtcome'.resolve_left fun hunchanged => htidy hunchanged.1).2
    exact ⟨m, after, after', hrun, hsame ▸ hrun'⟩
  · have hfew' : arrived.length ≤ 1 := h.perm.length_eq ▸ hfew
    exact ⟨_, _, _, merge_of_length_le_one sink history hfew,
      merge_of_length_le_one sink' history' hfew'⟩

def serverSide : Span := { traceId := .string "7a", id := .string "2", shared := .bool true }

def clientSide : Span := { traceId := .string "7b", id := .string "2", parentId := .string "1" }

def clientRest : Span := { traceId := .string "7b", id := .string "2", duration := .int 5 }

theorem wellTyped_sides : ∀ s ∈ [serverSide, clientSide, clientRest], s.WellTyped := by
  simp only [List.forall_mem_cons]
  refine ⟨?_, ?_, ?_, nofun⟩
  · exact ⟨⟨_, rfl⟩, ⟨_, rfl⟩, .absent, .absent, .absent, .absent, .absent, nofun, nofun, nofun, nofun,
      .nil, .absent, .present true⟩
  · exact ⟨⟨_, rfl⟩, ⟨_, rfl⟩, .present "1", .absent, .absent, .absent, .absent, nofun, nofun, nofun,
      nofun, .nil, .absent, .absent⟩
  · exact ⟨⟨_, rfl⟩, ⟨_, rfl⟩, .absent, .absent, .absent, .absent, .present 5, nofun, nofun, nofun,
      nofun, .nil, .absent, .absent⟩

theorem merge_rearranged_sides :
    (∀ s ∈ [serverSide, clientSide, clientRest], s.WellTyped) ∧
    (∀ s ∈ [serverSide, clientSide, clientRest], ∀ t ∈ [serverSide, clientSide, clientRest],
      s.traceId.length = t.traceId.length) ∧
    Sorting.StablyRearranges Span.cleanupKey [serverSide, clientSide, clientRest]
      [clientSide, serverSide, clientRest] ∧
    ∃ m after after',
      (merge Sink.quiet [serverSide, clientSide, clientRest]).run.run .empty = (.ok m, after) ∧
        (merge Sink.failing [clientSide, serverSide, clientRest]).run.run .empty = (.ok m, after') := by
  have hlength : ∀ s ∈ [serverSide, clientSide, clientRest], s.traceId.length = .ok 2 := by
    simp only [List.forall_mem_cons]
    exact ⟨rfl, rfl, rfl, nofun⟩
  have oneLength : ∀ s ∈ [serverSide, clientSide, clientRest],
      ∀ t ∈ [serverSide, clientSide, clientRest], s.traceId.length = t.traceId.length :=
    fun s hs t ht => (hlength s hs).trans (hlength t ht).symm
  have hne : serverSide.cleanupKey ≠ clientSide.cleanupKey := by decide
  have h := Sorting.stablyRearranges_swap Span.cleanupKey hne [clientRest]
  exact ⟨wellTyped_sides, oneLength, h,
    merge_rearranged Sink.quiet Sink.failing .empty .empty wellTyped_sides oneLength h⟩

end SpanForest.Trace
