import SpanForest.Proofs.Trace.HandedDown

/-!
Repairs that the sink is told of. A span may be altered in four ways, and the sink is told of two of
them: that parts were combined, and that a parent was copied. The main statement tells when some
span is altered without a report under its id.
-/

namespace SpanForest.Trace

/-- A span that a repair of legs under a trace id does not leave as it was: it is put under that trace
id, it no longer names itself as its parent, it is combined with other parts, or its leg is handed a
parent. -/
inductive Altered (traceId : Value) (legs : List Leg) (s : Span) : Prop
  | renamed (h : s.traceId.length ≠ traceId.length)
  | cleared (h : s.isOwnParent = true)
  | combined {leg : Leg} (hleg : leg ∈ legs) (hs : s ∈ leg.parts) (h : 1 < leg.parts.length)
  | handed {p leg : Leg} (hneighbours : [p, leg] <:+: legs) (hs : s ∈ leg.parts) (h : p.HandsDown leg)

/-- A leg of this id is of several parts, or is handed a parent. -/
def ToldOf (legs : List Leg) (id : Value) : Prop :=
  (∃ leg ∈ legs, leg.first.id = id ∧ 1 < leg.parts.length) ∨
    ∃ p leg, [p, leg] <:+: legs ∧ leg.first.id = id ∧ p.HandsDown leg

theorem mem_legLog_iff {traceId : Value} {previous : Option Span} {leg : Leg} {d : Diagnostic} :
    d ∈ legLog traceId previous leg ↔
      (1 < leg.parts.length ∧ d = combinedReport leg.parts.length traceId (mended traceId leg).id) ∨
      ((previous.any fun p => missesParent p (mended traceId leg)) = true ∧
        d = copiedReport traceId (mended traceId leg).id) := by
  rw [legLog, List.mem_append, List.mem_ite_nil_right, List.mem_ite_nil_right, List.mem_singleton,
    List.mem_singleton]

section

variable {traceId : Value} (hid : ∃ t, traceId = .string t) {legs : List Leg}
  (hlegs : ∀ leg ∈ legs, leg.Proper)
include hid hlegs

theorem exists_report_iff (id : Value) :
    (∃ d ∈ repairLog traceId none legs, d.level = .debug ∧ d.spanId = id) ↔ ToldOf legs id := by
  have hlog := repairLog_eq_flatMap traceId none none legs
  rw [Option.map_none] at hlog
  rw [hlog]
  constructor
  · rintro ⟨d, hd, -, rfl⟩
    obtain ⟨q, hq, hd⟩ := List.mem_flatMap.1 hd
    have hmem := mem_of_mem_withPrevious hq
    have hleg := hlegs q.2 hmem
    rcases mem_legLog_iff.1 hd with ⟨hmany, rfl⟩ | ⟨hmisses, rfl⟩
    · exact .inl ⟨q.2, hmem, (id_mended hid hleg).symm, hmany⟩
    · obtain ⟨p, hp, hdown⟩ := (any_missesParent_iff hid hlegs hq).1 hmisses
      have hp : q.1 = some p := hp
      exact .inr ⟨p, q.2, mem_withPrevious_some_iff.1 (hp ▸ hq), (id_mended hid hleg).symm, hdown⟩
  · rintro (⟨leg, hleg, rfl, hmany⟩ | ⟨p, leg, hneighbours, rfl, hdown⟩)
    · obtain ⟨previous, hq⟩ := exists_mem_withPrevious none hleg
      have hd : combinedReport leg.parts.length traceId (mended traceId leg).id ∈
          legLog traceId (previous.map (mended traceId)) leg := mem_legLog_iff.2 (.inl ⟨hmany, rfl⟩)
      exact ⟨_, List.mem_flatMap.2 ⟨_, hq, hd⟩, rfl, id_mended hid (hlegs leg hleg)⟩
    · have hq := mem_withPrevious_some_iff.2 hneighbours
      have hmisses := (any_missesParent_iff hid hlegs hq).2 ⟨p, rfl, hdown⟩
      have hd : copiedReport traceId (mended traceId leg).id ∈
          legLog traceId (some (mended traceId p)) leg := mem_legLog_iff.2 (.inr ⟨hmisses, rfl⟩)
      exact ⟨_, List.mem_flatMap.2 ⟨_, hq, hd⟩, rfl,
        id_mended hid (hlegs leg (mem_of_mem_withPrevious hq))⟩

theorem mem_mendAll_of_not_altered {leg : Leg} (hleg : leg ∈ legs) {s : Span} (hs : s ∈ leg.parts)
    (h : ¬ Altered traceId legs s) : s ∈ mendAll traceId none legs := by
  have hwellTyped : s.WellTyped := (hlegs leg hleg).typed s hs
  have hlength : s.traceId.length = traceId.length := by
    by_contra hne
    exact h (.renamed hne)
  have hown : s.isOwnParent = false := by
    rw [Bool.eq_false_iff]
    exact fun hown => h (.cleared hown)
  obtain ⟨previous, hq⟩ := exists_mem_withPrevious none hleg
  obtain ⟨first, others⟩ := leg
  cases others with
  | cons t others => exact absurd (.combined hleg hs (Nat.lt_add_of_pos_left (Nat.succ_pos _))) h
  | nil =>
      obtain rfl : s = first := List.mem_singleton.1 hs
      have hmended : mended traceId ⟨s, []⟩ = s := normalized_eq_self hid hwellTyped hlength hown
      have hmisses : ((previous.map (mended traceId)).any fun p => missesParent p s) = false := by
        rw [Bool.eq_false_iff]
        intro hmisses
        rw [← hmended] at hmisses
        obtain ⟨p, hp, hdown⟩ := (any_missesParent_iff hid hlegs hq).1 hmisses
        have hp : previous = some p := hp
        exact h (.handed (mem_withPrevious_some_iff.1 (hp ▸ hq)) List.mem_cons_self hdown)
      have hsame : handedTo traceId (previous, ⟨s, []⟩) = s := by
        rw [handedTo, hmended]
        exact adopting_eq_self hmisses
      rw [mendAll_eq_handedTo, ← hsame]
      exact List.mem_map_of_mem hq

end

/-- A span that is not altered comes out as it was given, and no span that comes out has a trace id of
another length than that of the trace, or itself as its parent. For every altered span the sink is told
at least once, at the level of debugging, of a span of that id, exactly if it is told so for those that
are put under another trace id and for those that no longer name themselves. -/
theorem merge_announced_iff (sink : Sink) (history : Delivery) {first second : Span}
    {rest : List Span} (typed : ∀ s ∈ first :: second :: rest, s.WellTyped) :
    ∃ ordered found m log, Span.cleanupSort (first :: second :: rest) = .ok ordered ∧
      scan first.traceId ordered = .ok found ∧
      (merge sink (first :: second :: rest)).run.run history = (.ok m, history.offerAll sink log) ∧
      (∀ s ∈ first :: second :: rest, ¬ Altered found.traceId (legs ordered) s →
        s ∈ m.spans (first :: second :: rest)) ∧
      (∀ s ∈ m.spans (first :: second :: rest),
        s.traceId.length = found.traceId.length ∧ s.isOwnParent = false) ∧
      ((∀ s ∈ first :: second :: rest, Altered found.traceId (legs ordered) s →
          ∃ d ∈ log, d.level = .debug ∧ d.spanId = s.id) ↔
        ∀ s ∈ first :: second :: rest,
          s.traceId.length ≠ found.traceId.length ∨ s.isOwnParent = true →
            ToldOf (legs ordered) s.id) := by
  obtain ⟨ordered, found, m, hsort, hscan, hperm, htyped, -, hid, hrun, houtcome⟩ :=
    merge_reported sink history typed
  have hproper := (legs_spec htyped).1
  have hsound := (sound_mendAll htyped hid).1
  have hout : ∀ s, s ∈ m.spans (first :: second :: rest) ↔
      s ∈ mendAll found.traceId none (legs ordered) := by
    intro s
    rcases houtcome with ⟨rfl, -, hmendAll, -⟩ | rfl
    · rw [hmendAll, hperm.mem_iff]
      rfl
    · rfl
  refine ⟨ordered, found, m, _, hsort, hscan, hrun, fun s hs hsame => ?_, fun s hs => ?_, ?_⟩
  · obtain ⟨leg, hleg, hs⟩ := exists_mem_parts (hperm.mem_iff.2 hs)
    exact (hout s).2 (mem_mendAll_of_not_altered hid hproper hleg hs hsame)
  · have hs := hsound s ((hout s).1 hs)
    exact ⟨hs.length, hs.noOwnParent⟩
  · simp only [exists_report_iff hid hproper]
    constructor
    · rintro h s hs (hlength | hown)
      · exact h s hs (.renamed hlength)
      · exact h s hs (.cleared hown)
    · intro h s hs haltered
      cases haltered with
      | renamed hlength => exact h s hs (.inl hlength)
      | cleared hown => exact h s hs (.inr hown)
      | combined hleg hs hmany =>
          exact .inl ⟨_, hleg, (congrArg Prod.fst ((hproper _ hleg).oneKey s hs)).symm, hmany⟩
      | @handed p leg hneighbours hs hdown =>
          have hleg := hproper leg (hneighbours.subset (by simp))
          exact .inr ⟨_, _, hneighbours, (congrArg Prod.fst (hleg.oneKey s hs)).symm, hdown⟩

theorem merge_announced_iff_callSpans : (∀ s ∈ callSpans, s.WellTyped) ∧
    ∃ ordered found m log, Span.cleanupSort callSpans = .ok ordered ∧
      scan (.string "7b") ordered = .ok found ∧
      (merge Sink.quiet callSpans).run.run .empty =
        (.ok m, Delivery.empty.offerAll Sink.quiet log) ∧
      (∀ s ∈ callSpans, ¬ Altered found.traceId (legs ordered) s → s ∈ m.spans callSpans) ∧
      (∀ s ∈ m.spans callSpans, s.traceId.length = found.traceId.length ∧ s.isOwnParent = false) ∧
      ((∀ s ∈ callSpans, Altered found.traceId (legs ordered) s →
          ∃ d ∈ log, d.level = .debug ∧ d.spanId = s.id) ↔
        ∀ s ∈ callSpans, s.traceId.length ≠ found.traceId.length ∨ s.isOwnParent = true →
          ToldOf (legs ordered) s.id) :=
  ⟨wellTyped_callSpans, merge_announced_iff Sink.quiet .empty wellTyped_callSpans⟩

/-- A span that names itself, and another. -/
def selfNamed : List Span :=
  [{ traceId := .string "1", id := .string "1", parentId := .string "1" },
    { traceId := .string "1", id := .string "2" }]

/-- The parent id of the first is cleared, and the sink is told nothing. -/
theorem not_announced_selfNamed : (∀ s ∈ selfNamed, s.WellTyped) ∧
    ∃ m after, (merge Sink.quiet selfNamed).run.run .empty = (.ok m, after) ∧
      ∃ s ∈ selfNamed, s.isOwnParent = true ∧ s ∉ m.spans selfNamed ∧
        ∀ d ∈ after.offered, d.spanId ≠ s.id := by
  have typed : ∀ s ∈ selfNamed, s.WellTyped := by
    intro s hs
    simp only [selfNamed, List.mem_cons, List.not_mem_nil, or_false] at hs
    rcases hs with rfl | rfl
    · exact ⟨⟨_, rfl⟩, ⟨_, rfl⟩, .present "1", .absent, .absent, .absent, .absent, nofun, nofun, nofun,
        nofun, .nil, .absent, .absent⟩
    · exact ⟨⟨_, rfl⟩, ⟨_, rfl⟩, .absent, .absent, .absent, .absent, .absent, nofun, nofun, nofun,
        nofun, .nil, .absent, .absent⟩
  obtain ⟨after, hrun⟩ := exists_eq_ok (show ((merge Sink.quiet selfNamed).run.run
    .empty).1.toOption = some (.repaired
      [{ traceId := .string "1", id := .string "1" }, { traceId := .string "1", id := .string "2" }])
    by decide +kernel)
  have hsilent : ((merge Sink.quiet selfNamed).run.run .empty).2 = .empty := by decide +kernel
  rw [hrun] at hsilent
  obtain rfl : after = .empty := hsilent
  exact ⟨typed, _, _, hrun, _, List.mem_cons_self, rfl, by decide, nofun⟩

end SpanForest.Trace
