import SpanForest.Proofs.Trace.Repaired

/-!
Legs that come out of a repair as one span. Parts of a leg are combined where they stand next to
each other in cleanup order, and that order does not look at ports: between two parts of a leg a
part of another leg on another port may stay where it was given. The main statement says that
nothing else keeps the parts of a leg apart.
-/

namespace SpanForest

namespace Value

theorem optionalText_inj {v w : Value} (hv : v.IsOptionalString) (hw : w.IsOptionalString) :
    v.optionalText = w.optionalText ↔ v = w := by
  cases hv with
  | absent => cases hw <;> simp [optionalText]
  | present s => cases hw <;> simp [optionalText]

end Value

namespace Endpoint

/-- One place but for the port. -/
def OnOtherPort (e f : Endpoint) : Prop := ∃ port, e = { f with port } ∧ port ≠ f.port

theorem cleanupKey_eq_iff {e f : Endpoint} (he : e.WellTyped) (hf : f.WellTyped) :
    e.cleanupKey = f.cleanupKey ↔ e = { f with port := e.port } := by
  obtain ⟨service, ipv4, ipv6, port⟩ := e
  obtain ⟨service', ipv4', ipv6', port'⟩ := f
  simp only [cleanupKey, EmbeddingLike.apply_eq_iff_eq, Prod.mk.injEq, mk.injEq, and_true,
    Value.optionalText_inj he.serviceName hf.serviceName, Value.optionalText_inj he.ipv4 hf.ipv4,
    Value.optionalText_inj he.ipv6 hf.ipv6]

end Endpoint

namespace Span

/-- Two spans of one id and side whose endpoints differ, and only in the port. -/
def OnOtherPort (s t : Span) : Prop :=
  s.id = t.id ∧ s.isShared = t.isShared ∧
    ∃ e f, s.localEndpoint = some e ∧ t.localEndpoint = some f ∧ e.OnOtherPort f

theorem cleanupKey_eq_iff {s t : Span} (hs : s.WellTyped) (ht : t.WellTyped) :
    s.cleanupKey = t.cleanupKey ↔ s.id = t.id ∧ s.isShared = t.isShared ∧
      Endpoint.optionalKey s.localEndpoint = Endpoint.optionalKey t.localEndpoint := by
  obtain ⟨i, hi⟩ := hs.id
  obtain ⟨j, hj⟩ := ht.id
  rw [cleanupKey_eq hi, cleanupKey_eq hj, hi, hj]
  simp only [EmbeddingLike.apply_eq_iff_eq, Prod.mk.injEq, Value.string.injEq]

theorem onOtherPort_iff {s t : Span} (hs : s.WellTyped) (ht : t.WellTyped) :
    s.OnOtherPort t ↔ s.cleanupKey = t.cleanupKey ∧ s.legKey ≠ t.legKey := by
  rw [cleanupKey_eq_iff hs ht]
  constructor
  · rintro ⟨hid, hshared, e, f, he, hf, port, rfl, hport⟩
    refine ⟨⟨hid, hshared, ?_⟩, fun hkey => hport ?_⟩
    · rw [he, hf]
      rfl
    · have hlocal : s.localEndpoint = t.localEndpoint := congrArg (·.2.2) hkey
      rw [he, hf, Option.some.injEq] at hlocal
      exact congrArg Endpoint.port hlocal
  · rintro ⟨⟨hid, hshared, hplace⟩, hkey⟩
    have hlocal : s.localEndpoint ≠ t.localEndpoint := fun h =>
      hkey (by rw [legKey, legKey, hid, hshared, h])
    cases he : s.localEndpoint with
    | none =>
        cases hf : t.localEndpoint with
        | none => exact absurd (he.trans hf.symm) hlocal
        | some f =>
            rw [he, hf] at hplace
            exact absurd hplace WithBot.bot_ne_coe
    | some e =>
        cases hf : t.localEndpoint with
        | none =>
            rw [he, hf] at hplace
            exact absurd hplace WithBot.coe_ne_bot
        | some f =>
            rw [he, hf] at hplace hlocal
            have hsame := (Endpoint.cleanupKey_eq_iff (hs.localEndpoint e he)
              (ht.localEndpoint f hf)).1 (WithBot.coe_injective hplace)
            refine ⟨hid, hshared, e, f, he, hf, e.port, hsame, fun hport => hlocal ?_⟩
            rw [hsame, hport]

end Span

namespace Trace

def Interrupted (spans : List Span) : Prop :=
  ∃ p q r, [p, q, r].Sublist spans ∧ r.legKey = p.legKey ∧ q.legKey ≠ p.legKey

theorem interrupted_cons_iff {s : Span} {rest : List Span} : Interrupted (s :: rest) ↔
    Interrupted rest ∨
      ∃ q r, [q, r].Sublist rest ∧ r.legKey = s.legKey ∧ q.legKey ≠ s.legKey := by
  constructor
  · rintro ⟨p, q, r, hsub, hr, hq⟩
    cases hsub with
    | cons _ hsub => exact .inl ⟨p, q, r, hsub, hr, hq⟩
    | cons_cons _ hsub => exact .inr ⟨q, r, hsub, hr, hq⟩
  · rintro (⟨p, q, r, hsub, hr, hq⟩ | ⟨q, r, hsub, hr, hq⟩)
    · exact ⟨p, q, r, hsub.cons s, hr, hq⟩
    · exact ⟨s, q, r, hsub.cons_cons s, hr, hq⟩

def legKeys (spans : List Span) : List (Value × Bool × Option Endpoint) :=
  (legs spans).map fun leg => leg.first.legKey

theorem mem_legKeys_iff {spans : List Span} (typed : ∀ s ∈ spans, s.WellTyped)
    {k : Value × Bool × Option Endpoint} :
    k ∈ legKeys spans ↔ ∃ s ∈ spans, s.legKey = k := by
  constructor
  · intro hk
    obtain ⟨leg, hleg, rfl⟩ := List.mem_map.1 hk
    exact ⟨leg.first, mem_of_mem_parts hleg List.mem_cons_self, rfl⟩
  · rintro ⟨s, hs, rfl⟩
    obtain ⟨leg, hleg, hpart⟩ := exists_mem_parts hs
    exact List.mem_map.2 ⟨leg, hleg, (((legs_spec typed).1 leg hleg).oneKey s hpart).symm⟩

theorem legKeys_of_apart {spans : List Span} (apart : spans.IsChain fun s t => t.sameLeg s = false) :
    legKeys spans = spans.map Span.legKey := by
  rw [legKeys, legs_of_apart apart, List.map_map]
  rfl

theorem legKeys_cons {s t : Span} {rest : List Span} (hs : s.WellTyped) (ht : t.WellTyped) :
    legKeys (s :: t :: rest) = if t.legKey = s.legKey then legKeys (t :: rest)
      else s.legKey :: legKeys (t :: rest) := by
  obtain ⟨others, more, hrest, hlegs⟩ := exists_legs_cons_cons rest hs ht
  rw [legKeys, hlegs, legKeys, hrest]
  split
  · next hkey => rw [List.map_cons, List.map_cons, hkey]
  · rfl

theorem nodup_legKeys_iff {spans : List Span} (typed : ∀ s ∈ spans, s.WellTyped) :
    (legKeys spans).Nodup ↔ ¬ Interrupted spans := by
  induction spans with
  | nil => exact iff_of_true .nil fun ⟨_, _, _, hsub, _⟩ => nomatch hsub
  | cons s rest ih =>
      obtain ⟨hs, hrest⟩ := List.forall_mem_cons.1 typed
      have ih := ih hrest
      rw [interrupted_cons_iff, not_or]
      cases rest with
      | nil =>
          refine iff_of_true (List.nodup_singleton _) ⟨ih.1 .nil, ?_⟩
          rintro ⟨_, _, hsub, -⟩
          cases hsub
      | cons t rest =>
          rw [legKeys_cons hs (hrest t List.mem_cons_self)]
          by_cases hkey : t.legKey = s.legKey
          · -- what would interrupt the leg after `s` would do so after `t`
            rw [if_pos hkey, ih]
            refine ⟨fun h => ⟨h, ?_⟩, And.left⟩
            rintro ⟨q, r, hsub, hr, hq⟩
            cases hsub with
            | cons _ hsub =>
                exact h ⟨t, q, r, hsub.cons_cons t, hr.trans hkey.symm, fun h => hq (h.trans hkey)⟩
            | cons_cons _ hsub => exact hq hkey
          · rw [if_neg hkey, List.nodup_cons, ih, mem_legKeys_iff hrest, and_comm]
            refine and_congr_right fun _ => not_congr ⟨?_, ?_⟩
            · rintro ⟨r, hr, hrkey⟩
              have hr : r ∈ rest := (List.mem_cons.1 hr).resolve_left fun h => hkey (h ▸ hrkey)
              exact ⟨t, r, (List.singleton_sublist.2 hr).cons_cons t, hrkey, hkey⟩
            · rintro ⟨q, r, hsub, hr, -⟩
              exact ⟨r, hsub.subset (by simp), hr⟩

/-- Two parts of a leg with a part on another port between them, in the order given. -/
def Scattered (spans : List Span) : Prop :=
  ∃ p q r, [p, q, r].Sublist spans ∧ r.legKey = p.legKey ∧ q.OnOtherPort p

section

variable {spans : List Span} (typed : ∀ s ∈ spans, s.WellTyped)
include typed

theorem interrupted_iff_scattered {ordered : List Span}
    (h : Sorting.StablyOrders Span.cleanupKey spans ordered) :
    Interrupted ordered ↔ Scattered spans := by
  have onOtherPort {p q r : Span} (hsub : [p, q, r].Sublist spans) :
      q.OnOtherPort p ↔ q.cleanupKey = p.cleanupKey ∧ q.legKey ≠ p.legKey :=
    Span.onOtherPort_iff (typed q (hsub.subset (by simp))) (typed p (hsub.subset (by simp)))
  have sameKey {p q r : Span} (hr : r.legKey = p.legKey) (hq : q.cleanupKey = p.cleanupKey) :
      [p, q, r].Sublist ordered ↔ [p, q, r].Sublist spans := by
    have hrkey : r.cleanupKey = p.cleanupKey := congrArg Span.cleanupKeyAt hr
    exact h.sublist_iff (k := p.cleanupKey) (by simp [hq, hrkey])
  constructor
  · rintro ⟨p, q, r, hsub, hr, hq⟩
    have hrkey : r.cleanupKey = p.cleanupKey := congrArg Span.cleanupKeyAt hr
    obtain ⟨⟨hpq, -⟩, hqr⟩ : (p.cleanupKey ≤ q.cleanupKey ∧ p.cleanupKey ≤ r.cleanupKey) ∧
        q.cleanupKey ≤ r.cleanupKey := by
      simpa using h.inOrder.sublist hsub
    have hqkey : q.cleanupKey = p.cleanupKey := le_antisymm (hrkey ▸ hqr) hpq
    have hsub := (sameKey hr hqkey).1 hsub
    exact ⟨p, q, r, hsub, hr, (onOtherPort hsub).2 ⟨hqkey, hq⟩⟩
  · rintro ⟨p, q, r, hsub, hr, hq⟩
    obtain ⟨hqkey, hne⟩ := (onOtherPort hsub).1 hq
    exact ⟨p, q, r, (sameKey hr hqkey).2 hsub, hr, hne⟩

/-- No two spans that come out are parts of one leg, exactly if no two parts of a leg were given with a
part on another port between them. -/
theorem merge_wholeLegs_iff (sink : Sink) (history : Delivery) : ∃ m after,
    (merge sink spans).run.run history = (.ok m, after) ∧
      (((m.spans spans).map Span.legKey).Nodup ↔ ¬ Scattered spans) := by
  obtain ⟨ordered, m, after, hsort, hrun, houtcome⟩ := merge_outcome sink history typed
  have hstable := Sorting.stablyOrders_sortStable Span.cleanupKey spans
  rw [Except.ok.inj ((Span.cleanupSort_eq typed).symm.trans hsort)] at hstable
  have htyped : ∀ s ∈ ordered, s.WellTyped := fun s hs => typed s (hstable.perm.mem_iff.1 hs)
  refine ⟨m, after, hrun, ?_⟩
  rw [← interrupted_iff_scattered typed hstable, ← nodup_legKeys_iff htyped]
  rcases houtcome with ⟨rfl, htidy⟩ | ⟨traceId, hid, rfl⟩
  · have apart : ordered.IsChain fun s t => t.sameLeg s = false := by
      rcases Nat.lt_or_ge 1 spans.length with hlength | hlength
      · exact (htidy hlength).settled.imp fun _ _ h => h.1
      · rw [← hstable.perm.length_eq] at hlength
        match ordered with
        | [] => exact .nil
        | [s] => exact .singleton s
    rw [legKeys_of_apart apart]
    exact (hstable.perm.map Span.legKey).nodup_iff.symm
  · exact iff_of_eq (congrArg _ (legKey_mendAll hid none (legs_spec htyped).1))

end

/-- A leg on one port in two parts, and between them its call on another port. -/
def portSpans : List Span :=
  [{ traceId := .string "1", id := .string "1", name := .string "get",
      localEndpoint := some { serviceName := .string "web", port := .int 80 } },
    { traceId := .string "1", id := .string "1",
      localEndpoint := some { serviceName := .string "web", port := .int 443 } },
    { traceId := .string "1", id := .string "1", duration := .int 5,
      localEndpoint := some { serviceName := .string "web", port := .int 80 } }]

theorem wellTyped_portSpans : ∀ s ∈ portSpans, s.WellTyped := by
  have endpoint (port : Int) : ∀ e ∈ some ({ serviceName := .string "web", port := .int port } : Endpoint),
      e.WellTyped := by
    intro e he
    rw [← Option.some.inj he]
    exact ⟨.present "web", .absent, .absent, .present port⟩
  intro s hs
  simp only [portSpans, List.mem_cons, List.not_mem_nil, or_false] at hs
  rcases hs with rfl | rfl | rfl
  · exact ⟨⟨_, rfl⟩, ⟨_, rfl⟩, .absent, .absent, .present "get", .absent, .absent, endpoint 80, nofun,
      nofun, nofun, .nil, .absent, .absent⟩
  · exact ⟨⟨_, rfl⟩, ⟨_, rfl⟩, .absent, .absent, .absent, .absent, .absent, endpoint 443, nofun, nofun,
      nofun, .nil, .absent, .absent⟩
  · exact ⟨⟨_, rfl⟩, ⟨_, rfl⟩, .absent, .absent, .absent, .absent, .present 5, endpoint 80, nofun,
      nofun, nofun, .nil, .absent, .absent⟩

theorem merge_wholeLegs_iff_callSpans : (∀ s ∈ callSpans, s.WellTyped) ∧
    ∃ m after, (merge Sink.quiet callSpans).run.run .empty = (.ok m, after) ∧
      (((m.spans callSpans).map Span.legKey).Nodup ↔ ¬ Scattered callSpans) :=
  ⟨wellTyped_callSpans, merge_wholeLegs_iff wellTyped_callSpans Sink.quiet .empty⟩

/-- The two parts of the leg on port 80 come out as two spans. -/
theorem not_wholeLegs_portSpans : (∀ s ∈ portSpans, s.WellTyped) ∧
    ∃ m after, (merge Sink.quiet portSpans).run.run .empty = (.ok m, after) ∧
      ¬ ((m.spans portSpans).map Span.legKey).Nodup := by
  obtain ⟨after, hrun⟩ := exists_eq_ok (show ((merge Sink.quiet portSpans).run.run
    .empty).1.toOption = some .unchanged by decide +kernel)
  exact ⟨wellTyped_portSpans, .unchanged, after, hrun, by decide⟩

end Trace

end SpanForest
