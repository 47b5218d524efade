import SpanForest.Proofs.Trace.Mended

/-!
Repairing a trace against scanning it. A repair is made exactly where it would change the spans in
cleanup order, and what it makes of them is in that order and tidy, so that a second repair leaves
it alone.
-/

namespace SpanForest.Trace

section

variable {traceId : Value} {spans : List Span} (typed : ∀ s ∈ spans, s.WellTyped)
include typed

theorem sound_mendAll (hid : ∃ t, traceId = .string t) :
    (∀ s ∈ mendAll traceId none (legs spans), Sound traceId s) ∧
      (mendAll traceId none (legs spans)).IsChain Settled := by
  obtain ⟨hproper, hapart⟩ := legs_spec typed
  exact mendAll_spec hid hproper hapart none nofun

theorem tidy_mendAll (hid : ∃ t, traceId = .string t) :
    Tidy (mendAll traceId none (legs spans)) := by
  obtain ⟨hsound, hsettled⟩ := sound_mendAll typed hid
  exact ⟨fun s hs t ht => (hsound s hs).length.trans (hsound t ht).length.symm,
    fun s hs => (hsound s hs).noOwnParent, hsettled⟩

theorem inOrder_mendAll (hid : ∃ t, traceId = .string t)
    (hordered : Sorting.InOrder Span.cleanupKey spans) :
    Sorting.InOrder Span.cleanupKey (mendAll traceId none (legs spans)) := by
  rw [Span.inOrder_iff_legKey, legKey_mendAll hid none (legs_spec typed).1]
  have hfirst := (first_legs_sublist spans).map Span.legKey
  rw [List.map_map] at hfirst
  exact (Span.inOrder_iff_legKey.1 hordered).sublist hfirst

theorem nothing_to_mend (hid : traceId ∈ spans.map Span.traceId) (h : Tidy spans) :
    mendAll traceId none (legs spans) = spans ∧ repairLog traceId none (legs spans) = [] := by
  obtain ⟨own, hown, rfl⟩ := List.mem_map.1 hid
  have apart : spans.IsChain fun s t => t.sameLeg s = false := h.settled.imp fun _ _ hst => hst.1
  rw [legs_of_apart apart]
  refine mendAll_of_settled (typed own hown).traceId (fun s hs => ?_) none h.settled
  exact ⟨typed s hs, h.oneLength s hs own hown, h.noOwnParent s hs⟩

theorem mendAll_of_tidy (hid : traceId ∈ spans.map Span.traceId) (h : Tidy spans) :
    mendAll traceId none (legs spans) = spans :=
  (nothing_to_mend typed hid h).1

end

theorem merge_of_sorted (sink : Sink) (history : Delivery) {first second : Span}
    {rest ordered : List Span} (hsort : Span.cleanupSort (first :: second :: rest) = .ok ordered)
    (workable : ∀ s ∈ ordered, s.Workable) (hstart : first.traceId ∈ ordered.map Span.traceId) :
    ∃ found after, scan first.traceId ordered = .ok found ∧
      found.traceId ∈ ordered.map Span.traceId ∧ (found.needed = false ↔ Tidy ordered) ∧
      (repairLegs sink found.traceId none (legs ordered)).run.run history =
        (.ok (mendAll found.traceId none (legs ordered)), after) ∧
      (merge sink (first :: second :: rest)).run.run history =
        if found.needed then (.ok (.repaired (mendAll found.traceId none (legs ordered))), after)
        else (.ok .unchanged, history) := by
  obtain ⟨head, tail, rfl⟩ : ∃ head tail, ordered = head :: tail :=
    List.exists_cons_of_ne_nil fun h => by simp [h] at hstart
  obtain ⟨found, hscan, hid, hneeded⟩ := scan_spec workable hstart
  have hstring : ∃ t, found.traceId = .string t := by
    obtain ⟨s, hs, hsid⟩ := List.mem_map.1 hid
    exact hsid ▸ (workable s hs).traceId
  have hrepair := run_repairLegs hstring sink none
    (fun leg hleg p hp => workable p (mem_of_mem_parts hleg hp)) history
  refine ⟨found, _, hscan, hid, hneeded, hrepair, ?_⟩
  rw [merge, run_bind_ok (run_lift hsort history), run_bind_ok (run_lift hscan history)]
  · split
    · rw [run_bind_ok hrepair]
      rfl
    · rfl
  · exact List.cons_ne_nil second rest

theorem merge_spec (sink : Sink) (history : Delivery) {first second : Span} {rest : List Span}
    (typed : ∀ s ∈ first :: second :: rest, s.WellTyped) :
    ∃ ordered found after,
      Span.cleanupSort (first :: second :: rest) = .ok ordered ∧
      scan first.traceId ordered = .ok found ∧
      (∀ s ∈ ordered, s.WellTyped) ∧ Sorting.InOrder Span.cleanupKey ordered ∧
      found.traceId ∈ ordered.map Span.traceId ∧ (found.needed = false ↔ Tidy ordered) ∧
      (repairLegs sink found.traceId none (legs ordered)).run.run history =
        (.ok (mendAll found.traceId none (legs ordered)), after) ∧
      (merge sink (first :: second :: rest)).run.run history =
        if found.needed then (.ok (.repaired (mendAll found.traceId none (legs ordered))), after)
        else (.ok .unchanged, history) := by
  have hsort := Span.cleanupSort_eq typed
  have hperm := Sorting.sortStable_perm (Sorting.byKey Span.cleanupKey) (first :: second :: rest)
  have hordered := Sorting.inOrder_sortStable Span.cleanupKey (first :: second :: rest)
  generalize Sorting.sortStable (Sorting.byKey Span.cleanupKey) (first :: second :: rest) =
    ordered at *
  have htyped : ∀ s ∈ ordered, s.WellTyped := fun s hs => typed s (hperm.mem_iff.1 hs)
  have hstart : first.traceId ∈ ordered.map Span.traceId :=
    List.mem_map_of_mem (hperm.mem_iff.2 List.mem_cons_self)
  obtain ⟨found, after, hscan, hid, hneeded, hrepair, hmerge⟩ :=
    merge_of_sorted sink history hsort (fun s hs => (htyped s hs).workable) hstart
  exact ⟨ordered, found, after, hsort, hscan, htyped, hordered, hid, hneeded, hrepair, hmerge⟩

theorem merge_reported (sink : Sink) (history : Delivery) {first second : Span} {rest : List Span}
    (typed : ∀ s ∈ first :: second :: rest, s.WellTyped) :
    ∃ ordered found m,
      Span.cleanupSort (first :: second :: rest) = .ok ordered ∧
      scan first.traceId ordered = .ok found ∧
      ordered.Perm (first :: second :: rest) ∧ (∀ s ∈ ordered, s.WellTyped) ∧
      Sorting.InOrder Span.cleanupKey ordered ∧ (∃ t, found.traceId = .string t) ∧
      (merge sink (first :: second :: rest)).run.run history =
        (.ok m, history.offerAll sink (repairLog found.traceId none (legs ordered))) ∧
      (m = .unchanged ∧ Tidy ordered ∧ mendAll found.traceId none (legs ordered) = ordered ∧
          repairLog found.traceId none (legs ordered) = [] ∨
        m = .repaired (mendAll found.traceId none (legs ordered))) := by
  obtain ⟨ordered, found, after, hsort, hscan, htyped, hordered, hid, hneeded, hrepair, hmerge⟩ :=
    merge_spec sink history typed
  have hperm := Span.perm_of_cleanupSort typed hsort
  have hstring := Span.traceId_eq_string htyped hid
  have hlog := run_repairLegs hstring sink none
    (fun leg hleg p hp => (htyped p (mem_of_mem_parts hleg hp)).workable) history
  have hafter : after = history.offerAll sink (repairLog found.traceId none (legs ordered)) :=
    congrArg Prod.snd (hrepair.symm.trans hlog)
  cases hfound : found.needed with
  | false =>
      have htidy := hneeded.1 hfound
      obtain ⟨hmendAll, hrepairLog⟩ := nothing_to_mend htyped hid htidy
      rw [hfound, if_neg Bool.false_ne_true] at hmerge
      refine ⟨ordered, found, _, hsort, hscan, hperm, htyped, hordered, hstring, ?_,
        .inl ⟨rfl, htidy, hmendAll, hrepairLog⟩⟩
      rw [hmerge, hrepairLog]
      rfl
  | true =>
      rw [hfound, if_pos rfl, hafter] at hmerge
      exact ⟨ordered, found, _, hsort, hscan, hperm, htyped, hordered, hstring, hmerge, .inr rfl⟩

theorem merge_outcome (sink : Sink) (history : Delivery) {spans : List Span}
    (typed : ∀ s ∈ spans, s.WellTyped) :
    ∃ ordered m after, Span.cleanupSort spans = .ok ordered ∧
      (merge sink spans).run.run history = (.ok m, after) ∧
      (m = .unchanged ∧ (1 < spans.length → Tidy ordered) ∨
        ∃ traceId, (∃ t, traceId = .string t) ∧
          m = .repaired (mendAll traceId none (legs ordered))) := by
  match spans with
  | [] => exact ⟨_, _, _, Span.cleanupSort_eq typed, rfl, .inl ⟨rfl, nofun⟩⟩
  | [_] => exact ⟨_, _, _, Span.cleanupSort_eq typed, rfl, .inl ⟨rfl, fun h => absurd h (Nat.lt_irrefl 1)⟩⟩
  | first :: second :: rest =>
      obtain ⟨ordered, found, after, hsort, -, htyped, -, hid, hneeded, -, hmerge⟩ :=
        merge_spec sink history typed
      cases hfound : found.needed with
      | false =>
          rw [hfound, if_neg Bool.false_ne_true] at hmerge
          exact ⟨ordered, _, _, hsort, hmerge, .inl ⟨rfl, fun _ => hneeded.1 hfound⟩⟩
      | true =>
          rw [hfound, if_pos rfl] at hmerge
          exact ⟨ordered, _, _, hsort, hmerge,
            .inr ⟨found.traceId, Span.traceId_eq_string htyped hid, rfl⟩⟩

theorem wellTyped_merge (sink : Sink) (history : Delivery) {spans : List Span}
    (typed : ∀ s ∈ spans, s.WellTyped) :
    ∃ m after, (merge sink spans).run.run history = (.ok m, after) ∧
      ∀ s ∈ m.spans spans, s.WellTyped := by
  obtain ⟨ordered, m, after, hsort, hrun, ⟨rfl, -⟩ | ⟨traceId, hid, rfl⟩⟩ :=
    merge_outcome sink history typed
  · exact ⟨_, after, hrun, typed⟩
  · have hperm := Span.perm_of_cleanupSort typed hsort
    have htyped : ∀ s ∈ ordered, s.WellTyped := fun s hs => typed s (hperm.mem_iff.1 hs)
    exact ⟨_, after, hrun, fun s hs => ((sound_mendAll htyped hid).1 s hs).wellTyped⟩

theorem merge_of_tidy (sink : Sink) (history : Delivery) {spans ordered : List Span}
    (typed : ∀ s ∈ spans, s.WellTyped) (hsort : Span.cleanupSort spans = .ok ordered)
    (h : Tidy ordered) : (merge sink spans).run.run history = (.ok .unchanged, history) := by
  match spans with
  | [] => rfl
  | [_] => rfl
  | first :: second :: rest =>
      obtain ⟨ordered', found, after, hsort', -, -, -, -, hneeded, -, hmerge⟩ :=
        merge_spec sink history typed
      rw [Except.ok.inj (hsort'.symm.trans hsort)] at hneeded
      rw [hmerge, hneeded.2 h, if_neg Bool.false_ne_true]

/-- The scan stands for the repair: nothing is done exactly if a repair would change nothing. -/
theorem merge_unchanged_iff (sink : Sink) (history : Delivery) {first second : Span}
    {rest : List Span} (typed : ∀ s ∈ first :: second :: rest, s.WellTyped) :
    ∃ ordered found m after out after',
      Span.cleanupSort (first :: second :: rest) = .ok ordered ∧
      scan first.traceId ordered = .ok found ∧
      (merge sink (first :: second :: rest)).run.run history = (.ok m, after) ∧
      (repairLegs sink found.traceId none (legs ordered)).run.run history = (.ok out, after') ∧
      (m = .unchanged ↔ out = ordered) ∧ (m = .unchanged ↔ Tidy ordered) := by
  obtain ⟨ordered, found, after', hsort, hscan, htyped, -, hid, hneeded, hrepair, hmerge⟩ :=
    merge_spec sink history typed
  have hstring := Span.traceId_eq_string htyped hid
  have hout : mendAll found.traceId none (legs ordered) = ordered ↔ Tidy ordered :=
    ⟨fun h => h ▸ tidy_mendAll htyped hstring, mendAll_of_tidy htyped hid⟩
  cases hfound : found.needed with
  | false =>
      rw [hfound, if_neg Bool.false_ne_true] at hmerge
      have htidy := hneeded.1 hfound
      exact ⟨ordered, found, _, _, _, after', hsort, hscan, hmerge, hrepair,
        iff_of_true rfl (hout.2 htidy), iff_of_true rfl htidy⟩
  | true =>
      rw [hfound, if_pos rfl] at hmerge
      have htidy : ¬ Tidy ordered := fun h => Bool.false_ne_true ((hneeded.2 h).symm.trans hfound)
      exact ⟨ordered, found, _, _, _, after', hsort, hscan, hmerge, hrepair,
        iff_of_false nofun fun h => htidy (hout.1 h), iff_of_false nofun htidy⟩

def callSpans : List Span :=
  [{ traceId := .string "7b", id := .string "1", shared := .bool true },
    { traceId := .string "007b", id := .string "1", parentId := .string "0",
      localEndpoint := some { serviceName := .string "web" } },
    { traceId := .string "7b", id := .string "1", parentId := .string "1",
      localEndpoint := some { serviceName := .string "web" },
      annotations := [⟨.int 5, .string "sent"⟩] }]

theorem wellTyped_callSpans : ∀ s ∈ callSpans, s.WellTyped := by
  have endpoint : ∀ e ∈ some ({ serviceName := .string "web" } : Endpoint), e.WellTyped := by
    intro e he
    rw [← Option.some.inj he]
    exact ⟨.present "web", .absent, .absent, .absent⟩
  have annotation : ∀ a ∈ [(⟨.int 5, .string "sent"⟩ : Annotation)], a.WellTyped := by
    intro a ha
    rw [List.mem_singleton.1 ha]
    exact ⟨⟨5, rfl⟩, ⟨"sent", rfl⟩⟩
  intro s hs
  simp only [callSpans, List.mem_cons, List.not_mem_nil, or_false] at hs
  rcases hs with rfl | rfl | rfl
  · exact ⟨⟨_, rfl⟩, ⟨_, rfl⟩, .absent, .absent, .absent, .absent, .absent, nofun, nofun, nofun,
      nofun, .nil, .absent, .present true⟩
  · exact ⟨⟨_, rfl⟩, ⟨_, rfl⟩, .present "0", .absent, .absent, .absent, .absent, endpoint, nofun,
      nofun, nofun, .nil, .absent, .absent⟩
  · exact ⟨⟨_, rfl⟩, ⟨_, rfl⟩, .present "1", .absent, .absent, .absent, .absent, endpoint, nofun,
      annotation, nofun, .nil, .absent, .absent⟩

theorem merge_unchanged_iff_callSpans : (∀ s ∈ callSpans, s.WellTyped) ∧
    ∃ ordered found m after out after', Span.cleanupSort callSpans = .ok ordered ∧
      scan (.string "7b") ordered = .ok found ∧
      (merge Sink.quiet callSpans).run.run .empty = (.ok m, after) ∧
      (repairLegs Sink.quiet found.traceId none (legs ordered)).run.run .empty = (.ok out, after') ∧
      (m = .unchanged ↔ out = ordered) ∧ (m = .unchanged ↔ Tidy ordered) :=
  ⟨wellTyped_callSpans, merge_unchanged_iff Sink.quiet .empty wellTyped_callSpans⟩

/-- A second repair finds nothing to do: what the first one leaves is tidy once it is in order, and
what it changes is in order. -/
theorem merge_merge (sink : Sink) (history : Delivery) {spans : List Span}
    (typed : ∀ s ∈ spans, s.WellTyped) :
    ∃ m after, (merge sink spans).run.run history = (.ok m, after) ∧
      (∀ sink' history', (merge sink' (m.spans spans)).run.run history' = (.ok .unchanged, history')) ∧
      (1 < spans.length → ∃ ordered, Span.cleanupSort (m.spans spans) = .ok ordered ∧ Tidy ordered) ∧
      ∀ r, m = .repaired r → (r.Pairwise fun s t => t.cleanupBefore s = .ok false) ∧ Tidy r := by
  match spans with
  | [] => exact ⟨.unchanged, history, rfl, fun _ _ => rfl, nofun, nofun⟩
  | [_] => exact ⟨.unchanged, history, rfl, fun _ _ => rfl, fun h => absurd h (Nat.lt_irrefl 1), nofun⟩
  | first :: second :: rest =>
      obtain ⟨ordered, found, after, hsort, -, htyped, hordered, hid, hneeded, -, hmerge⟩ :=
        merge_spec sink history typed
      cases hfound : found.needed with
      | false =>
          have htidy := hneeded.1 hfound
          rw [hfound, if_neg Bool.false_ne_true] at hmerge
          exact ⟨_, _, hmerge, fun sink' history' => merge_of_tidy sink' history' typed hsort htidy,
            fun _ => ⟨ordered, hsort, htidy⟩, nofun⟩
      | true =>
          have hstring := Span.traceId_eq_string htyped hid
          have htyped' := fun s hs => ((sound_mendAll htyped hstring).1 s hs).wellTyped
          have hordered' := inOrder_mendAll htyped hstring hordered
          have hsort' := Span.cleanupSort_of_inOrder htyped' hordered'
          have htidy := tidy_mendAll htyped hstring
          rw [hfound, if_pos rfl] at hmerge
          refine ⟨_, _, hmerge, fun sink' history' => ?_, fun _ => ⟨_, hsort', htidy⟩, fun r hr => ?_⟩
          · exact merge_of_tidy sink' history' htyped' hsort' htidy
          · rw [← Merged.repaired.inj hr]
            exact ⟨(Span.inOrder_iff htyped').1 hordered', htidy⟩

theorem merge_merge_callSpans : (∀ s ∈ callSpans, s.WellTyped) ∧
    ∃ m after, (merge Sink.failing callSpans).run.run .empty = (.ok m, after) ∧
      (∀ sink' history',
        (merge sink' (m.spans callSpans)).run.run history' = (.ok .unchanged, history')) ∧
      (1 < callSpans.length →
        ∃ ordered, Span.cleanupSort (m.spans callSpans) = .ok ordered ∧ Tidy ordered) ∧
      ∀ r, m = .repaired r → (r.Pairwise fun s t => t.cleanupBefore s = .ok false) ∧ Tidy r :=
  ⟨wellTyped_callSpans, merge_merge Sink.failing .empty wellTyped_callSpans⟩

end SpanForest.Trace
