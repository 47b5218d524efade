import SpanForest.Proofs.Trace.Repaired

/-!
The trace id that the scan settles on. It starts from the one given, and only the first part of each
leg has a say: its id is taken over as long as none of full length is held. The main statement tells
from this when all spans that come out have an id of full length.
-/

namespace SpanForest.Trace

/-- A trace id that is never given up. -/
def Full (traceId : Value) : Prop := traceId.length = .ok fullLength

instance (traceId : Value) : Decidable (Full traceId) :=
  decidable_of_iff (traceId.length.toOption = some fullLength)
    ⟨eq_ok_of_toOption, fun h => congrArg Except.toOption h⟩

def settledId (start : Value) : List Value → Value
  | [] => start
  | traceId :: rest => settledId (if Full start then start else traceId) rest

theorem full_settledId_iff {start : Value} {ids : List Value} :
    Full (settledId start ids) ↔ Full start ∨ ∃ traceId ∈ ids, Full traceId := by
  induction ids generalizing start with
  | nil => simp [settledId]
  | cons traceId rest ih =>
      rw [settledId, ih]
      by_cases hstart : Full start
      · rw [if_pos hstart]
        exact iff_of_true (.inl hstart) (.inl hstart)
      · rw [if_neg hstart, List.exists_mem_cons_iff]
        exact (or_iff_right hstart).symm

theorem settledId_eq (start : Value) (ids : List Value) : settledId start ids =
    if Full start then start else ((ids.find? fun i => Full i).or ids.getLast?).getD start := by
  induction ids generalizing start with
  | nil =>
      rw [settledId, List.find?_nil, List.getLast?_nil, Option.or_none, Option.getD_none, ite_self]
  | cons traceId rest ih =>
      rw [settledId, ih]
      by_cases hstart : Full start
      · simp only [if_pos hstart]
      by_cases hid : Full traceId
      · simp only [if_neg hstart, if_pos hid, List.find?_cons, decide_eq_true hid, Option.some_or,
          Option.getD_some]
      simp only [if_neg hstart, if_neg hid, List.find?_cons, decide_eq_false hid, List.getLast?_cons]
      -- without a full one behind it, the first is left only if it is also the last
      cases rest.find? fun i => Full i with
      | none => rfl
      | some found => rfl

/-- The trace ids that the legs go by. -/
def legIds (legs : List Leg) : List Value := legs.map fun leg => leg.first.traceId

namespace Scan

theorem traceId_meet {state met : Scan} {first : Span} (h : state.meet first = .ok met) :
    met.traceId = if Full state.traceId then state.traceId else first.traceId := by
  obtain ⟨own, -, h⟩ := exists_of_bind_ok h
  obtain ⟨length, hlength, h⟩ := exists_of_bind_ok h
  rw [← Except.ok.inj h]
  have hfull : Full state.traceId ↔ length = fullLength := by
    rw [Full, hlength, Except.ok.injEq]
  simp only [hfull, ite_not]

end Scan

theorem tail_legs_cons {s t : Span} (rest : List Span) (hs : s.WellTyped) (ht : t.WellTyped) :
    (legs (s :: t :: rest)).tail =
      if t.legKey = s.legKey then (legs (t :: rest)).tail else legs (t :: rest) := by
  obtain ⟨others, more, hrest, hlegs⟩ := exists_legs_cons_cons rest hs ht
  rw [hlegs, hrest]
  split
  · rfl
  · rfl

theorem tail_legs_congr {s t : Span} {rest : List Span} (hs : s.WellTyped) (ht : t.WellTyped)
    (hrest : ∀ u ∈ rest, u.WellTyped) (hkey : s.legKey = t.legKey) :
    (legs (s :: rest)).tail = (legs (t :: rest)).tail := by
  cases rest with
  | nil => rfl
  | cons u rest =>
      have hu := hrest u List.mem_cons_self
      rw [tail_legs_cons rest hs hu, tail_legs_cons rest ht hu, hkey]

theorem traceId_goOn {state final : Scan} {first : Span} {rest : List Span} (hfirst : first.WellTyped)
    (typed : ∀ t ∈ rest, t.WellTyped) (h : state.goOn first rest = .ok final) :
    final.traceId = settledId state.traceId (legIds (legs (first :: rest)).tail) := by
  induction rest generalizing state first with
  | nil =>
      rw [← Except.ok.inj h]
      rfl
  | cons next rest ih =>
      have hflag (found : Bool) : (state.flag found).traceId = state.traceId := rfl
      obtain ⟨hnext, hrest⟩ := List.forall_mem_cons.1 typed
      rw [tail_legs_cons rest hfirst hnext]
      rw [Scan.goOn] at h
      have hsame := Span.sameLeg_iff hnext hfirst
      by_cases hkey : next.legKey = first.legKey
      · rw [if_pos (hsame.2 hkey)] at h
        rw [if_pos hkey, ← tail_legs_congr hfirst hnext hrest hkey.symm]
        rw [← hflag true]
        exact ih hfirst hrest h
      · rw [if_neg (mt hsame.1 hkey)] at h
        split at h
        · cases h
        · next met hmeet =>
            obtain ⟨others, more, hlegs⟩ := exists_legs_cons next rest
            rw [if_neg hkey, ih hnext hrest h, hlegs, Scan.traceId_meet hmeet, hflag]
            rfl

theorem traceId_scan {traceId : Value} {spans : List Span} {found : Scan}
    (typed : ∀ s ∈ spans, s.WellTyped) (h : scan traceId spans = .ok found) :
    found.traceId = settledId traceId (legIds (legs spans)) := by
  cases spans with
  | nil =>
      rw [← Except.ok.inj h]
      rfl
  | cons first rest =>
      obtain ⟨hfirst, hrest⟩ := List.forall_mem_cons.1 typed
      rw [scan] at h
      split at h
      · cases h
      · next met hmeet =>
          obtain ⟨others, more, hlegs⟩ := exists_legs_cons first rest
          rw [traceId_goOn hfirst hrest h, hlegs, Scan.traceId_meet hmeet]
          rfl

section

variable (sink : Sink) (history : Delivery) {first second : Span} {rest : List Span}
  (typed : ∀ s ∈ first :: second :: rest, s.WellTyped)
include typed

theorem merge_traceLength : ∃ ordered m after,
    Span.cleanupSort (first :: second :: rest) = .ok ordered ∧
      (merge sink (first :: second :: rest)).run.run history = (.ok m, after) ∧
      m.spans (first :: second :: rest) ≠ [] ∧ ∀ s ∈ m.spans (first :: second :: rest),
        s.traceId.length = (settledId first.traceId (legIds (legs ordered))).length := by
  obtain ⟨ordered, found, after, hsort, hscan, htyped, -, hid, hneeded, -, hmerge⟩ :=
    merge_spec sink history typed
  have hperm := Span.perm_of_cleanupSort typed hsort
  have hsettled := traceId_scan htyped hscan
  cases hfound : found.needed with
  | false =>
      rw [hfound, if_neg Bool.false_ne_true] at hmerge
      refine ⟨ordered, _, _, hsort, hmerge, List.cons_ne_nil _ _, fun s hs => ?_⟩
      obtain ⟨t, ht, htid⟩ := List.mem_map.1 hid
      rw [← hsettled, ← htid]
      exact (hneeded.1 hfound).oneLength s (hperm.mem_iff.2 hs) t ht
  | true =>
      rw [hfound, if_pos rfl] at hmerge
      have hne : ordered ≠ [] := fun h => List.not_mem_nil (h ▸ hid)
      have hsound := (sound_mendAll htyped (Span.traceId_eq_string htyped hid)).1
      refine ⟨ordered, _, _, hsort, hmerge, mendAll_ne_nil _ _ hne, fun s hs => ?_⟩
      rw [← hsettled]
      exact (hsound s hs).length

/-- The spans that come out have full trace ids exactly if the first span given has one, or the first
part of a leg in cleanup order. -/
theorem merge_full_iff : ∃ ordered m after,
    Span.cleanupSort (first :: second :: rest) = .ok ordered ∧
      (merge sink (first :: second :: rest)).run.run history = (.ok m, after) ∧
      ((∀ s ∈ m.spans (first :: second :: rest), Full s.traceId) ↔
        Full first.traceId ∨ ∃ leg ∈ legs ordered, Full leg.first.traceId) := by
  obtain ⟨ordered, m, after, hsort, hrun, hne, hlength⟩ := merge_traceLength sink history typed
  refine ⟨ordered, m, after, hsort, hrun, ?_⟩
  have hfull : ∀ s ∈ m.spans (first :: second :: rest), Full s.traceId ↔
      Full (settledId first.traceId (legIds (legs ordered))) := by
    intro s hs
    rw [Full, hlength s hs, Full]
  obtain ⟨out, hout⟩ := List.exists_mem_of_ne_nil _ hne
  have hids : (∃ traceId ∈ legIds (legs ordered), Full traceId) ↔
      ∃ leg ∈ legs ordered, Full leg.first.traceId := by
    simp only [legIds, List.mem_map, exists_exists_and_eq_and]
  rw [← hids, ← full_settledId_iff]
  exact ⟨fun h => (hfull out hout).1 (h out hout), fun h s hs => (hfull s hs).2 h⟩

end

/-- A span under a short trace id, and a span under a full one. -/
def twoLengths (i : Text) : List Span :=
  [{ traceId := .string "7b", id := .string "1" },
    { traceId := .string "463ac35c9f6413ad48485a3953bb6124", id := .string i }]

theorem wellTyped_twoLengths (i : Text) : ∀ s ∈ twoLengths i, s.WellTyped := by
  intro s hs
  simp only [twoLengths, List.mem_cons, List.not_mem_nil, or_false] at hs
  rcases hs with rfl | rfl
  · exact ⟨⟨_, rfl⟩, ⟨_, rfl⟩, .absent, .absent, .absent, .absent, .absent, nofun, nofun, nofun,
      nofun, .nil, .absent, .absent⟩
  · exact ⟨⟨_, rfl⟩, ⟨_, rfl⟩, .absent, .absent, .absent, .absent, .absent, nofun, nofun, nofun,
      nofun, .nil, .absent, .absent⟩

theorem merge_full_iff_twoLengths : (∀ s ∈ twoLengths "2", s.WellTyped) ∧
    ∃ ordered m after, Span.cleanupSort (twoLengths "2") = .ok ordered ∧
      (merge Sink.quiet (twoLengths "2")).run.run .empty = (.ok m, after) ∧
      ((∀ s ∈ m.spans (twoLengths "2"), Full s.traceId) ↔
        Full (.string "7b") ∨ ∃ leg ∈ legs ordered, Full leg.first.traceId) :=
  ⟨wellTyped_twoLengths "2", merge_full_iff Sink.quiet .empty (wellTyped_twoLengths "2")⟩

/-- Of the two parts of one span only the first has a say, and its short id is what is left. -/
theorem not_full_twoLengths : (∀ s ∈ twoLengths "1", s.WellTyped) ∧
    (∃ s ∈ twoLengths "1", Full s.traceId) ∧
    ∃ m after, (merge Sink.quiet (twoLengths "1")).run.run .empty = (.ok m, after) ∧
      ∃ s ∈ m.spans (twoLengths "1"), ¬ Full s.traceId := by
  obtain ⟨after, hrun⟩ := exists_eq_ok (show ((merge Sink.quiet (twoLengths "1")).run.run
    .empty).1.toOption = some (.repaired [{ traceId := .string "7b", id := .string "1" }]) by
      decide +kernel)
  exact ⟨wellTyped_twoLengths "1", ⟨_, List.mem_cons_of_mem _ List.mem_cons_self, by decide⟩, _, after,
    hrun, _, List.mem_cons_self, by decide⟩

end SpanForest.Trace
