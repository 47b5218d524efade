import SpanForest.Proofs.Trace.Assembled

/-!
Span trees of spans with different ids. A repair takes its parent from a span that names itself,
which the tree would refuse, and gives no span a new one; so without longer cycles every id has one
node. A repair does not look at a span that is alone, and that one is lost if it names itself.
-/

namespace SpanForest.Trace

open Registered

/-- Some span of the id `i` names `p` as its parent. -/
def Names (spans : List Span) (i p : Text) : Prop :=
  ∃ s ∈ spans, s.id = .string i ∧ s.parentId = .string p

/-- Two ids that are above each other by way of parents are one. -/
def NoLongCycle (spans : List Span) : Prop :=
  ∀ i j, Relation.TransGen (Names spans) i j → Relation.TransGen (Names spans) j i → i = j

theorem noLongCycle_of_rank {spans : List Span} (rank : Value → Nat) (h : ∀ s ∈ spans,
    s.parentId = .null ∨ s.parentId = s.id ∨ rank s.parentId < rank s.id) : NoLongCycle spans := by
  have hstep {i p : Text} (hnames : Names spans i p) :
      p = i ∨ rank (.string p) < rank (.string i) := by
    obtain ⟨s, hs, hid, hparent⟩ := hnames
    have hs := h s hs
    rw [hid, hparent] at hs
    rcases hs with hnull | hsame | hlower
    · cases hnull
    · exact .inl (Value.string.inj hsame)
    · exact .inr hlower
  have lower {i j : Text} (hij : Relation.TransGen (Names spans) i j) :
      j = i ∨ rank (.string j) < rank (.string i) := by
    induction hij with
    | single hnames => exact hstep hnames
    | tail _ hnames ih =>
        rcases hstep hnames with rfl | hlower
        · exact ih
        · rcases ih with rfl | hbefore
          · exact .inr hlower
          · exact .inr (hlower.trans hbefore)
  intro i j hij hji
  rcases lower hij with rfl | hlower
  · rfl
  · rcases lower hji with rfl | hback
    · rfl
    · exact absurd (hlower.trans hback) (Nat.lt_irrefl _)

structure OnlyFreed (spans given : List Span) : Prop where
  ids : (given.map Span.id).Perm (spans.map Span.id)
  parents : ∀ g ∈ given, ∃ s ∈ spans, s.id = g.id ∧ (g.parentId = s.parentId ∨ g.parentId = .null)
  noOwnParent : 1 < spans.length → ∀ g ∈ given, g.isOwnParent = false
  alone : ∀ s, spans = [s] → given = [s]

section Repair

variable {spans : List Span} (typed : ∀ s ∈ spans, s.WellTyped)
include typed

theorem pairwise_same_id (distinct : (spans.map Span.id).Nodup) :
    spans.Pairwise fun s t => t.id.same s.id = false := by
  rw [List.Nodup, List.pairwise_map] at distinct
  refine distinct.imp_of_mem fun {s t} hs ht hne => ?_
  obtain ⟨i, hi⟩ := (typed s hs).id
  obtain ⟨j, hj⟩ := (typed t ht).id
  rw [hi, hj] at hne ⊢
  rw [Value.same_string, beq_eq_false_iff_ne]
  exact fun h => hne (congrArg Value.string h.symm)

omit typed in
theorem mendAll_of_pairwise (traceId : Value) {spans : List Span}
    (apart : spans.Pairwise fun s t => t.id.same s.id = false) (previous : Option Span)
    (hprevious : ∀ p ∈ previous, ∀ s ∈ spans, s.id.same p.id = false) :
    mendAll traceId previous (spans.map fun s => ⟨s, []⟩) = spans.map (normalized traceId) := by
  induction spans generalizing previous with
  | nil => rfl
  | cons s rest ih =>
      obtain ⟨hs, hrest⟩ := List.pairwise_cons.1 apart
      have hadopting : adopting previous (mended traceId ⟨s, []⟩) = normalized traceId s := by
        cases previous with
        | none => rfl
        | some p =>
            have hid : s.id.same p.id = false := hprevious p rfl s List.mem_cons_self
            refine if_neg fun hmisses => Bool.false_ne_true (hid.symm.trans ?_)
            exact (missesParent_iff.1 hmisses).1
      rw [List.map_cons, mendAll, hadopting, List.map_cons]
      refine congrArg _ (ih hrest _ fun p hp => ?_)
      rw [← Option.some.inj hp]
      exact hs

theorem onlyFreed_merge (sink : Sink) {history : Delivery} (distinct : (spans.map Span.id).Nodup)
    {given : List Span} (hgiven : Given sink spans history true given) : OnlyFreed spans given := by
  cases hgiven with
  | @repaired m after hrun =>
      obtain ⟨ordered, m', after', hsort, hrun', houtcome⟩ := merge_outcome sink history typed
      obtain rfl : m = m' := Except.ok.inj (congrArg Prod.fst (hrun.symm.trans hrun'))
      have hperm := Span.perm_of_cleanupSort typed hsort
      have alone : ∀ s, spans = [s] → m.spans spans = [s] := by
        rintro s rfl
        rw [← Except.ok.inj (congrArg Prod.fst hrun)]
        rfl
      rcases houtcome with ⟨rfl, htidy⟩ | ⟨traceId, hid, rfl⟩
      · refine ⟨.refl _, fun g hg => ⟨g, hg, rfl, .inl rfl⟩, fun hlength g hg => ?_, alone⟩
        exact (htidy hlength).noOwnParent g (hperm.mem_iff.2 hg)
      · have htyped : ∀ s ∈ ordered, s.WellTyped := fun s hs => typed s (hperm.mem_iff.1 hs)
        have apart := pairwise_same_id htyped ((hperm.map Span.id).nodup_iff.2 distinct)
        have hlegs : legs ordered = ordered.map fun s => ⟨s, []⟩ := by
          refine legs_of_apart (apart.isChain.imp fun s t hst => ?_)
          rw [Span.sameLeg, hst, Bool.false_and, Bool.false_and]
        have hmended := mendAll_of_pairwise traceId apart none (by simp)
        rw [hlegs, hmended] at alone ⊢
        have hmem {g : Span} (hg : g ∈ ordered.map (normalized traceId)) :
            ∃ s ∈ ordered, normalized traceId s = g := List.mem_map.1 hg
        refine ⟨?_, fun g hg => ?_, fun _ g hg => ?_, alone⟩
        · rw [Merged.spans, List.map_map]
          exact hperm.map Span.id
        · obtain ⟨s, hs, rfl⟩ := hmem hg
          refine ⟨s, hperm.mem_iff.1 hs, rfl, ?_⟩
          rw [normalized_parentId]
          split
          · exact .inr rfl
          · exact .inl rfl
        · obtain ⟨s, hs, rfl⟩ := hmem hg
          exact (sound_normalized hid (htyped s hs)).noOwnParent

end Repair

section Registrations

variable {given : List TypedSpan} (distinct : (given.map TypedSpan.id).Nodup)
include distinct

theorem eq_of_mem_registrations {r r' : Registration Text TypedSpan}
    (hr : r ∈ registrations given) (hr' : r' ∈ registrations given) (hid : r.id = r'.id) : r = r' := by
  obtain ⟨s, hs, -, rfl⟩ := mem_registrations.1 hr
  obtain ⟨s', hs', -, rfl⟩ := mem_registrations.1 hr'
  exact congrArg _ (List.inj_on_of_nodup_map distinct hs hs' hid)

theorem shared_eq_of_has {i : Text} {shared shared' : Bool}
    (h : has (registrations given) ⟨i, shared⟩ = true)
    (h' : has (registrations given) ⟨i, shared'⟩ = true) : shared = shared' := by
  obtain ⟨s, hs, -, hk⟩ := has_registrations.1 h
  obtain ⟨s', hs', -, hk'⟩ := has_registrations.1 h'
  have hid : s.id = s'.id := (congrArg Key.id hk).trans (congrArg Key.id hk').symm
  rw [List.inj_on_of_nodup_map distinct hs hs' hid] at hk
  exact congrArg Key.shared (hk.symm.trans hk')

theorem nothingLost_registrations : NothingLost TypedSpan.joined (registrations given) := by
  rintro k hroot ⟨r, hr, rfl, hparent⟩
  obtain ⟨-, first, hfirst, headless, hkey⟩ := rootKey?_plain hroot
  obtain rfl := eq_of_mem_registrations distinct hfirst hr (congrArg Key.id hkey)
  exact absurd (first.isHeadless_iff.1 headless).2 hparent

end Registrations

theorem acyclic_registrations {spans : List Span} {given : List TypedSpan} (acyclic : NoLongCycle spans)
    (hfreed : OnlyFreed spans (given.map TypedSpan.span)) : Acyclic (registrations given) := by
  have hnames {i p : Text} (h : NamesParent (registrations given) i p) : Names spans i p ∧ p ≠ i := by
    obtain ⟨r, hr, -, rfl, hp⟩ := h
    obtain ⟨g, hg, hown, rfl⟩ := mem_registrations.1 hr
    have hparent : g.span.parentId = .string p := Value.string?_eq_some.1 hp
    constructor
    · obtain ⟨s, hs, hid, hkept | hgone⟩ := hfreed.parents g.span (List.mem_map_of_mem hg)
      · exact ⟨s, hs, hid.trans g.span_id, hkept.symm.trans hparent⟩
      · rw [hparent] at hgone
        cases hgone
    · rintro rfl
      rw [g.isOwnParent_eq, show g.parentId = some g.id from hp, Option.any_some, beq_self_eq_true] at hown
      cases hown
  intro i hcycle
  obtain ⟨p, hstep, hback⟩ := Relation.TransGen.head'_iff.1 hcycle
  rcases Relation.reflTransGen_iff_eq_or_transGen.1 hback with rfl | hback
  · exact (hnames hstep).2 rfl
  · refine (hnames hstep).2 (acyclic p i ?_ (.single (hnames hstep).1))
    exact Relation.TransGen.mono (fun _ _ h => (hnames h).1) _ _ hback

/-- Spans with different ids and no longer cycles have a node for each id, except for one span alone
that names itself. -/
theorem buildTree_keepsIds_iff (sink : Sink) (history : Delivery) {spans : List Span}
    (typed : ∀ s ∈ spans, s.WellTyped) (distinct : (spans.map Span.id).Nodup)
    (acyclic : NoLongCycle spans) :
    ∃ t after, (buildTree sink true spans).run.run history = (.ok t, after) ∧
      t.graph.WalksAsTree t.root ∧
      ((∀ s ∈ spans, ∃ n, ∀ n', t.Holds n' s.id ↔ n' = n) ↔
        ¬ ∃ s, spans = [s] ∧ s.isOwnParent = true) := by
  obtain ⟨given, root, b, after, hgiven, hready, hrun⟩ := run_buildTree sink true history typed
  have hfreed := onlyFreed_merge typed sink distinct hgiven
  refine ⟨_, after, hrun, (wellLinked_assembled hready).walksAsTree, ?_⟩
  have hdistinct : (given.map TypedSpan.id).Nodup := by
    have hids : (given.map TypedSpan.span).map Span.id =
        (given.map TypedSpan.id).map Value.string := by
      simp only [List.map_map, Function.comp_def, TypedSpan.span_id]
    exact (hids ▸ hfreed.ids.nodup_iff.2 distinct).of_map
  constructor
  · rintro hkept ⟨s, rfl, hown⟩
    obtain ⟨i, hi⟩ := (typed s List.mem_cons_self).id
    obtain ⟨n, hn⟩ := hkept s List.mem_cons_self
    have hholds := (hn n).2 rfl
    rw [hi, holds_assembled hready] at hholds
    obtain ⟨-, shared, hholds⟩ := hholds
    obtain ⟨g, hg, hfree, -⟩ := has_registrations.1 (hready.has_of_holds hholds)
    have hg : g.span ∈ given.map TypedSpan.span := List.mem_map_of_mem hg
    rw [hfreed.alone s rfl, List.mem_singleton] at hg
    rw [hg, hown] at hfree
    cases hfree
  · intro hnone s hs
    obtain ⟨_, hspan, hid⟩ := List.mem_map.1 (hfreed.ids.mem_iff.2 (List.mem_map_of_mem hs))
    obtain ⟨g, hg, rfl⟩ := List.mem_map.1 hspan
    -- a repair frees a span from itself, but a span alone is not repaired
    have hfree : g.span.isOwnParent = false := by
      rcases Nat.lt_or_ge 1 spans.length with hlength | hlength
      · exact hfreed.noOwnParent hlength g.span hspan
      · obtain ⟨s', rfl⟩ := List.length_eq_one_iff.1 (Nat.le_antisymm hlength (List.length_pos_of_mem hs))
        rw [hfreed.alone s' rfl, List.mem_singleton] at hspan
        rw [hspan, Bool.eq_false_iff]
        exact fun hown => hnone ⟨s', rfl, hown⟩
    have hhas := has_registrations.2 ⟨g, hg, hfree, rfl⟩
    obtain ⟨n, hn, -⟩ := hready.keepsAll_of_nothingLost (acyclic_registrations acyclic hfreed)
      (nothingLost_registrations hdistinct) g.key hhas
    refine ⟨n, fun n' => ?_⟩
    rw [← hid, g.span_id, holds_assembled hready, ← hn n']
    refine and_congr_right fun _ => ⟨?_, fun hholds => ⟨_, hholds⟩⟩
    rintro ⟨shared, hholds⟩
    rwa [shared_eq_of_has hdistinct (hready.has_of_holds hholds) hhas] at hholds

def scatteredSpans : List Span :=
  [{ traceId := .string "1", id := .string "b", parentId := .string "a" },
    { traceId := .string "1", id := .string "a", parentId := .string "a" },
    { traceId := .string "1", id := .string "c", parentId := .string "a", shared := .bool true },
    { traceId := .string "1", id := .string "d", parentId := .string "gone" },
    { traceId := .string "1", id := .string "e" }]

theorem buildTree_keepsIds_scatteredSpans : (∀ s ∈ scatteredSpans, s.WellTyped) ∧
    (scatteredSpans.map Span.id).Nodup ∧ NoLongCycle scatteredSpans ∧
    ∃ t after, (buildTree Sink.quiet true scatteredSpans).run.run .empty = (.ok t, after) ∧
      t.graph.WalksAsTree t.root ∧
      ((∀ s ∈ scatteredSpans, ∃ n, ∀ n', t.Holds n' s.id ↔ n' = n) ↔
        ¬ ∃ s, scatteredSpans = [s] ∧ s.isOwnParent = true) := by
  have typed : ∀ s ∈ scatteredSpans, s.WellTyped := by
    intro s hs
    simp only [scatteredSpans, List.mem_cons, List.not_mem_nil, or_false] at hs
    rcases hs with rfl | rfl | rfl | rfl | rfl
    · exact Span.wellTyped_bare "1" "b" (.present "a") .absent nofun
    · exact Span.wellTyped_bare "1" "a" (.present "a") .absent nofun
    · exact Span.wellTyped_bare "1" "c" (.present "a") (.present true) nofun
    · exact Span.wellTyped_bare "1" "d" (.present "gone") .absent nofun
    · exact Span.wellTyped_bare "1" "e" .absent .absent nofun
  have distinct : (scatteredSpans.map Span.id).Nodup := by decide
  have acyclic : NoLongCycle scatteredSpans := by
    refine noLongCycle_of_rank (fun v => if v = .string "a" ∨ v = .string "gone" then 0 else 1) ?_
    decide
  exact ⟨typed, distinct, acyclic,
    buildTree_keepsIds_iff Sink.quiet .empty typed distinct acyclic⟩

/-- A span that names itself, and there is no other. -/
def ownParent : Span := { traceId := .string "1", id := .string "a", parentId := .string "a" }

/-- No node of the tree has the span. -/
theorem not_keepsIds_ownParent : (∀ s ∈ [ownParent], s.WellTyped) ∧
    ([ownParent].map Span.id).Nodup ∧ NoLongCycle [ownParent] ∧
    ∃ t after, (buildTree Sink.quiet true [ownParent]).run.run .empty = (.ok t, after) ∧
      ∃ s ∈ [ownParent], ∀ n, ¬ t.Holds n s.id := by
  have typed : ∀ s ∈ [ownParent], s.WellTyped := by
    intro s hs
    rw [List.mem_singleton.1 hs]
    exact Span.wellTyped_bare "1" "a" (.present "a") .absent nofun
  have acyclic : NoLongCycle [ownParent] := noLongCycle_of_rank (fun _ => 0) (by decide)
  obtain ⟨after, hrun⟩ := exists_eq_ok (show ((buildTree Sink.quiet true [ownParent]).run.run
    .empty).1.toOption = some ⟨⟨#[⟨none, none, []⟩]⟩, 0⟩ by decide +kernel)
  refine ⟨typed, by decide, acyclic, _, after, hrun, ownParent, List.mem_cons_self, ?_⟩
  rintro n ⟨hn, s, hs, -⟩
  rw [show n = 0 from List.mem_singleton.1 hn] at hs
  cases hs

end SpanForest.Trace
