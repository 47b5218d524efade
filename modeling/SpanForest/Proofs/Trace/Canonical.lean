import SpanForest.Proofs.Span.Canonical
import SpanForest.Proofs.Trace.Repaired

/-!
Repairing canonical spans of one trace. What joining, clearing a parent and taking one over keep is
kept by a repair, and they keep spans canonical and under their trace id.
-/

namespace SpanForest

theorem Value.IsNullOrString.isOptionalString {P : Text → Prop} {v : Value}
    (h : v.IsNullOrString P) : v.IsOptionalString := by
  cases h with
  | null => exact .absent
  | @string s => exact .present s

theorem Value.IsNullOrString.eq_null {P : Text → Prop} (hP : ∀ s, P s → s ≠ []) {v w : Value}
    (hv : v.IsNullOrString P) (h : v.orElse w = .null) : v = .null := by
  cases hv with
  | null => rfl
  | @string s hs =>
      rwa [orElse_of_isSet (isSet_string (hP s hs))] at h

namespace Endpoint

theorem Canonical.combine_ne {e : Endpoint} (h : e.Canonical) (f : Endpoint) : e.combine f ≠ {} := by
  intro hempty
  refine h.notEmpty (mk.injEq .. ▸ ⟨?_, ?_, ?_, ?_⟩)
  · exact h.serviceName.eq_null (fun _ hs => hs.1) (congrArg Endpoint.serviceName hempty)
  · exact h.ipv4.eq_null (fun _ hs => hs) (congrArg Endpoint.ipv4 hempty)
  · exact h.ipv6.eq_null (fun _ hs => hs) (congrArg Endpoint.ipv6 hempty)
  · have hport : (if e.port.isNull then f.port else e.port) = .null := congrArg Endpoint.port hempty
    split at hport
    · next hnull => exact (Value.isNull_iff e.port).1 hnull
    · exact hport

theorem Canonical.combine {e f : Endpoint} (he : e.Canonical) (hf : f.Canonical) :
    (e.combine f).Canonical where
  serviceName := Value.holds_orElse he.serviceName hf.serviceName
  ipv4 := Value.holds_orElse he.ipv4 hf.ipv4
  ipv6 := Value.holds_orElse he.ipv6 hf.ipv6
  port := holds_combine_port he.port hf.port
  portNotZero := holds_combine_port (P := (· ≠ .int 0)) he.portNotZero hf.portNotZero
  notEmpty := he.combine_ne f

theorem Legible.combine {e f : Endpoint} (he : e.Legible) (hf : f.Legible) : (e.combine f).Legible where
  serviceName := Value.holds_orElse he.serviceName hf.serviceName
  ipv4 := Value.holds_orElse he.ipv4 hf.ipv4
  ipv6 := Value.holds_orElse he.ipv6 hf.ipv6

theorem Canonical.wellTyped {e : Endpoint} (h : e.Canonical) : e.WellTyped where
  serviceName := h.serviceName.isOptionalString
  ipv4 := h.ipv4.isOptionalString
  ipv6 := h.ipv6.isOptionalString
  port := h.port

end Endpoint

namespace Span

theorem Canonical.wellTyped {s : Span} (h : s.Canonical) : s.WellTyped where
  traceId := h.traceId.imp fun _ ht => ht.1
  id := h.id.imp fun _ ht => ht.1
  parentId := h.parentId.isOptionalString
  kind := h.kind.isOptionalString
  name := h.name.isOptionalString
  timestamp := h.timestamp
  duration := h.duration
  localEndpoint e he := (h.localEndpoint e he).wellTyped
  remoteEndpoint e he := (h.remoteEndpoint e he).wellTyped
  annotations := h.annotations
  tags := h.tags
  tagNames := h.tagNames
  debug := h.debug
  shared := h.shared

theorem readable_update {tags others : Table Text Value} (htags : (Value.object tags).Readable)
    (hothers : (Value.object others).Readable) :
    (Value.object (Table.update tags others)).Readable := by
  obtain ⟨hnamed, hvalues⟩ := Value.readable_object.1 htags
  obtain ⟨hnamed', hvalues'⟩ := Value.readable_object.1 hothers
  have hentry : ∀ entry ∈ Table.update tags others, entry.1.Joined ∧ entry.2.Readable := by
    intro entry hentry
    rcases Table.mem_of_mem_update hentry with h | h
    · exact ⟨hnamed.joined entry h, hvalues entry h⟩
    · exact ⟨hnamed'.joined entry h, hvalues' entry h⟩
  exact Value.readable_object.2
    ⟨⟨Table.nodup_keys_update hnamed.distinct, fun entry h => (hentry entry h).1⟩,
      fun entry h => (hentry entry h).2⟩

theorem readable_combineFlag {v : Value} (hv : v.Readable) (w : Value) :
    (combineFlag v w).Readable := by
  unfold combineFlag
  split
  · trivial
  · exact hv

theorem Legible.joined {s t : Span} (hs : s.Legible) (ht : t.Legible) : (s.joined t).Legible where
  traceId := hs.traceId
  id := hs.id
  parentId := Value.holds_orElse hs.parentId ht.parentId
  kind := Value.holds_orElse hs.kind ht.kind
  name := holds_combineName hs.name ht.name
  localEndpoint :=
    Endpoint.holds_combineOption (fun _ _ => .combine) hs.localEndpoint ht.localEndpoint
  remoteEndpoint :=
    Endpoint.holds_combineOption (fun _ _ => .combine) hs.remoteEndpoint ht.remoteEndpoint
  annotations a ha := by
    rcases List.mem_append.1 ( Annotation.mem_of_mem_united ha) with ha | ha
    · exact hs.annotations a ha
    · exact ht.annotations a ha
  tags := readable_update hs.tags ht.tags
  debug := readable_combineFlag hs.debug t.debug
  shared := readable_combineFlag hs.shared t.shared

theorem Canonical.joined {s t : Span} (hs : s.Canonical) (ht : t.Canonical) :
    (s.joined t).Canonical where
  traceId := hs.traceId
  id := hs.id
  parentId := Value.holds_orElse hs.parentId ht.parentId
  kind := Value.holds_orElse hs.kind ht.kind
  name := holds_combineName hs.name ht.name
  timestamp := Value.holds_orElse hs.timestamp ht.timestamp
  timestampNotZero := Value.holds_orElse (P := (· ≠ .int 0)) hs.timestampNotZero ht.timestampNotZero
  duration := Value.holds_orElse hs.duration ht.duration
  durationNotZero := Value.holds_orElse (P := (· ≠ .int 0)) hs.durationNotZero ht.durationNotZero
  localEndpoint :=
    Endpoint.holds_combineOption (fun _ _ => .combine) hs.localEndpoint ht.localEndpoint
  remoteEndpoint :=
    Endpoint.holds_combineOption (fun _ _ => .combine) hs.remoteEndpoint ht.remoteEndpoint
  annotations := (wellTyped_joined hs.wellTyped ht.wellTyped).annotations
  inOrder := Annotation.inOrder_united (wellTyped_append hs.wellTyped ht.wellTyped)
  tags := (wellTyped_joined hs.wellTyped ht.wellTyped).tags
  tagNames := (wellTyped_joined hs.wellTyped ht.wellTyped).tagNames
  debug := isFlag_combineFlag hs.debug t.debug
  shared := isFlag_combineFlag hs.shared t.shared
  legible := hs.legible.joined ht.legible

end Span

namespace Trace

section

variable {P : Span → Prop} {traceId : Value} (hnormal : ∀ s, P s → P (normalized traceId s))
  (hjoined : ∀ s t, P s → P t → P (s.joined t))
  (hadopted : ∀ p s, P p → P s → P { s with parentId := p.parentId })
include hnormal hjoined hadopted

theorem mendAll_induction {legs : List Leg} (h : ∀ leg ∈ legs, ∀ p ∈ leg.parts, P p)
    (previous : Option Span) (hprevious : ∀ p ∈ previous, P p) :
    ∀ s ∈ mendAll traceId previous legs, P s := by
  induction legs generalizing previous with
  | nil => exact nofun
  | cons leg rest ih =>
      obtain ⟨hleg, hrest⟩ := List.forall_mem_cons.1 h
      have hmended : P (mended traceId leg) := by
        refine Span.joinedAll_induction (hnormal _ (hleg _ List.mem_cons_self)) fun s t hs ht => ?_
        obtain ⟨p, hp, rfl⟩ := List.mem_map.1 ht
        exact hjoined s _ hs (hnormal p (hleg p (List.mem_cons_of_mem leg.first hp)))
      have hfirst : P (adopting previous (mended traceId leg)) := by
        cases previous with
        | none => exact hmended
        | some p =>
            rw [adopting]
            split
            · exact hadopted p _ (hprevious p rfl) hmended
            · exact hmended
      rw [mendAll]
      exact List.forall_mem_cons.2 ⟨hfirst, ih hrest _ fun p hp => Option.some.inj hp ▸ hfirst⟩

end

structure CanonicalUnder (i : Text) (s : Span) : Prop where
  canonical : s.Canonical
  traceId : s.traceId = .string i

namespace CanonicalUnder

variable {i : Text} {s t : Span}

theorem normalized (h : CanonicalUnder i s) : CanonicalUnder i (normalized (.string i) s) := by
  have htraceId : (Trace.normalized (.string i) s).traceId = s.traceId := by
    rw [normalized_traceId, h.traceId, if_neg (by simp)]
  have hparentId : (Trace.normalized (.string i) s).parentId.IsNullOrString
      fun t => t ≠ [] ∧ Id.normal t = t := by
    rw [normalized_parentId]
    split
    · exact .null
    · exact h.canonical.parentId
  have hlegible : (Trace.normalized (.string i) s).parentId.Readable := by
    rw [normalized_parentId]
    split
    · trivial
    · exact h.canonical.legible.parentId
  refine
    ⟨{ h.canonical with
        traceId := htraceId ▸ h.canonical.traceId
        parentId := hparentId
        legible :=
          { h.canonical.legible with
            traceId := htraceId ▸ h.canonical.legible.traceId
            parentId := hlegible } },
      htraceId.trans h.traceId⟩

theorem joined (hs : CanonicalUnder i s) (ht : CanonicalUnder i t) : CanonicalUnder i (s.joined t) :=
  ⟨hs.canonical.joined ht.canonical, hs.traceId⟩

theorem adopted (hs : CanonicalUnder i s) (ht : CanonicalUnder i t) :
    CanonicalUnder i { t with parentId := s.parentId } :=
  ⟨{  ht.canonical with
      parentId := hs.canonical.parentId
      legible := { ht.canonical.legible with parentId := hs.canonical.legible.parentId } },
    ht.traceId⟩

end CanonicalUnder

theorem canonicalUnder_mendAll {i : Text} {spans : List Span}
    (h : ∀ s ∈ spans, CanonicalUnder i s) :
    ∀ s ∈ mendAll (.string i) none (legs spans), CanonicalUnder i s := by
  refine mendAll_induction (fun _ => .normalized) (fun _ _ => .joined) (fun _ _ => .adopted) ?_ none
    nofun
  exact fun leg hleg p hp => h p (mem_of_mem_parts hleg hp)

theorem merge_canonical (sink : Sink) (history : Delivery) {i : Text} {spans : List Span}
    (h : ∀ s ∈ spans, CanonicalUnder i s) :
    ∃ m after, (merge sink spans).run.run history = (.ok m, after) ∧
      (∀ s ∈ m.spans spans, CanonicalUnder i s) ∧ (spans ≠ [] → m.spans spans ≠ []) ∧
      ∀ sink' history', (merge sink' (m.spans spans)).run.run history' = (.ok .unchanged, history') := by
  have typed : ∀ s ∈ spans, s.WellTyped := fun s hs => (h s hs).canonical.wellTyped
  match spans with
  | [] => exact ⟨.unchanged, history, rfl, h, id, fun _ _ => rfl⟩
  | [s] => exact ⟨.unchanged, history, rfl, h, id, fun _ _ => rfl⟩
  | first :: second :: rest =>
      obtain ⟨ordered, found, after, hsort, -, htyped, hordered, hid, hneeded, -, hmerge⟩ :=
        merge_spec sink history typed
      have hperm := Span.perm_of_cleanupSort typed hsort
      have hunder : ∀ s ∈ ordered, CanonicalUnder i s := fun s hs => h s (hperm.mem_iff.1 hs)
      have hfound : found.traceId = .string i := by
        obtain ⟨s, hs, hsid⟩ := List.mem_map.1 hid
        exact hsid.symm.trans (hunder s hs).traceId
      have hne : ordered ≠ [] := fun hnil => by simp [hnil] at hperm
      cases hneed : found.needed with
      | false =>
          rw [hneed, if_neg Bool.false_ne_true] at hmerge
          exact ⟨_, _, hmerge, h, id, fun sink' history' =>
            merge_of_tidy sink' history' typed hsort (hneeded.1 hneed)⟩
      | true =>
          have hmended := canonicalUnder_mendAll hunder
          have htyped' : ∀ s ∈ mendAll (.string i) none (legs ordered), s.WellTyped :=
            fun s hs => (hmended s hs).canonical.wellTyped
          have hsort' := Span.cleanupSort_of_inOrder htyped' (inOrder_mendAll htyped ⟨i, rfl⟩ hordered)
          rw [hneed, if_pos rfl, hfound] at hmerge
          exact ⟨_, _, hmerge, hmended, fun _ => mendAll_ne_nil _ _ hne, fun sink' history' =>
            merge_of_tidy sink' history' htyped' hsort' (tidy_mendAll htyped ⟨i, rfl⟩)⟩

end Trace

end SpanForest
