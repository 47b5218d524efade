import SpanForest.Proofs.Table
import SpanForest.Span.CleanupOrder
import SpanForest.Span.Combine

/-!
Parts of one leg as one span. On spans with the ids and annotations of the declared kinds combining
never fails: it is the function `joined`, whose values are such spans again, and have all fields of
the declared kinds if both parts do. Parts of a leg agree in the id, the side and the local
endpoint, and what they are joined to agrees with them.
-/

namespace SpanForest

namespace Value

inductive IsExact : Value → Prop where
  | null : IsExact .null
  | string (s : Text) : IsExact (.string s)
  | int (n : Int) : IsExact (.int n)

theorem IsOptionalString.isExact {v : Value} (h : v.IsOptionalString) : v.IsExact := by
  cases h with
  | absent => exact .null
  | present s => exact .string s

theorem IsOptionalInt.isExact {v : Value} (h : v.IsOptionalInt) : v.IsExact := by
  cases h with
  | absent => exact .null
  | present n => exact .int n

theorem IsExact.same_iff {v w : Value} (hv : v.IsExact) (hw : w.IsExact) : v.same w = true ↔ v = w := by
  cases hv with
  | null => exact (same_null_iff w).trans eq_comm
  | string s => cases hw <;> simp [same, quantity?]
  | int n => cases hw <;> simp [same, quantity?, Quantity.same_ofInt]

theorem orElse_eq_or (v w : Value) : v.orElse w = v ∨ v.orElse w = w := by
  unfold orElse
  split
  · exact .inl rfl
  · exact .inr rfl

theorem orElse_self (v : Value) : v.orElse v = v := ite_self v

theorem holds_orElse {P : Value → Prop} {v w : Value} (hv : P v) (hw : P w) : P (v.orElse w) := by
  rcases orElse_eq_or v w with h | h
  · rwa [h]
  · rwa [h]

theorem IsFlag.isSet {v : Value} (hv : v.IsFlag) : v.isSet = v.isTrue := by
  cases hv <;> rfl

end Value

namespace Endpoint

theorem same_iff {e f : Endpoint} (he : e.WellTyped) (hf : f.WellTyped) :
    e.same f = true ↔ e = f := by
  obtain ⟨service, ipv4, ipv6, port⟩ := e
  simp only [same, Bool.and_eq_true, he.serviceName.isExact.same_iff hf.serviceName.isExact,
    he.ipv4.isExact.same_iff hf.ipv4.isExact, he.ipv6.isExact.same_iff hf.ipv6.isExact,
    he.port.isExact.same_iff hf.port.isExact]
  constructor
  · rintro ⟨⟨⟨rfl, rfl⟩, rfl⟩, rfl⟩
    rfl
  · rintro rfl
    exact ⟨⟨⟨rfl, rfl⟩, rfl⟩, rfl⟩

theorem sameOption_iff {e f : Option Endpoint} (he : ∀ x ∈ e, x.WellTyped)
    (hf : ∀ x ∈ f, x.WellTyped) : sameOption e f = true ↔ e = f := by
  cases e with
  | none => cases f <;> simp [sameOption]
  | some e =>
      cases f with
      | none => simp [sameOption]
      | some f => rw [sameOption, same_iff (he e rfl) (hf f rfl), Option.some.injEq]

theorem combine_self (e : Endpoint) : e.combine e = e := by
  simp only [combine, Value.orElse_self, ite_self]

theorem combineOption_self (e : Option Endpoint) : combineOption e e = e := by
  cases e with
  | none => rfl
  | some e => exact congrArg some e.combine_self

theorem holds_combine_port {P : Value → Prop} {e f : Endpoint} (he : P e.port) (hf : P f.port) :
    P (e.combine f).port := by
  rw [combine]
  split
  · exact hf
  · exact he

theorem holds_combineOption {P : Endpoint → Prop} (hcombine : ∀ e f, P e → P f → P (e.combine f))
    {e f : Option Endpoint} (he : ∀ x ∈ e, P x) (hf : ∀ x ∈ f, P x) :
    ∀ x ∈ combineOption e f, P x := by
  cases e with
  | none => exact hf
  | some e =>
      cases f with
      | none => exact he
      | some f =>
          intro x hx
          rw [← Option.some.inj hx]
          exact hcombine e f (he e rfl) (hf f rfl)

theorem WellTyped.combine {e f : Endpoint} (he : e.WellTyped) (hf : f.WellTyped) :
    (e.combine f).WellTyped where
  serviceName := Value.holds_orElse he.serviceName hf.serviceName
  ipv4 := Value.holds_orElse he.ipv4 hf.ipv4
  ipv6 := Value.holds_orElse he.ipv6 hf.ipv6
  port := holds_combine_port he.port hf.port

end Endpoint

namespace Annotation

def united (as bs : List Annotation) : List Annotation :=
  Sorting.sortStable (Sorting.holds before) (distinct (as ++ bs))

theorem mem_of_mem_distinctFrom {seen as : List Annotation} {a : Annotation}
    (h : a ∈ distinctFrom seen as) : a ∈ as := by
  induction as generalizing seen with
  | nil => exact h
  | cons b as ih =>
      rw [distinctFrom] at h
      split at h
      · exact List.mem_cons_of_mem b (ih h)
      · rcases List.mem_cons.1 h with rfl | h
        · exact List.mem_cons_self
        · exact List.mem_cons_of_mem b (ih h)

theorem mem_of_mem_united {as bs : List Annotation} {a : Annotation} (h : a ∈ united as bs) :
    a ∈ as ++ bs :=
  mem_of_mem_distinctFrom ((Sorting.sortStable_perm _ _).mem_iff.1 h)

theorem check_wellTyped {a : Annotation} (h : a.WellTyped) : a.check = .ok () := by
  obtain ⟨n, hn⟩ := h.timestamp
  obtain ⟨s, hs⟩ := h.value
  rw [check, hn, hs]
  rfl

theorem forM_check {as : List Annotation} (h : ∀ a ∈ as, a.WellTyped) : as.forM check = .ok () := by
  induction as with
  | nil => rfl
  | cons a as ih =>
      rw [List.forM, check_wellTyped (h a List.mem_cons_self)]
      exact ih fun b hb => h b (List.mem_cons_of_mem a hb)

theorem union_eq {as bs : List Annotation} (h : ∀ a ∈ as ++ bs, a.WellTyped) :
    union as bs = .ok (united as bs) := by
  rw [union, forM_check h]
  refine Sorting.sort_plain (fun a ha => isPlain_of_wellTyped (h a ?_)) before
  exact mem_of_mem_distinctFrom ha

end Annotation

namespace Span

/-- A span whose ids, service name and annotations have the declared kinds, whatever its other fields
hold. -/
structure Workable (s : Span) : Prop where
  traceId : ∃ t, s.traceId = .string t
  id : ∃ t, s.id = .string t
  parentId : s.parentId.IsOptionalString
  serviceName : s.serviceName.IsOptionalString
  annotations : ∀ a ∈ s.annotations, a.WellTyped

theorem WellTyped.workable {s : Span} (h : s.WellTyped) : s.Workable where
  traceId := h.traceId
  id := h.id
  parentId := h.parentId
  serviceName := by
    unfold Span.serviceName
    split
    · next e he => exact (h.localEndpoint e he).serviceName
    · exact .absent
  annotations := h.annotations

/-- The leg of which a span is a part. -/
def legKey (s : Span) : Value × Bool × Option Endpoint := (s.id, s.isShared, s.localEndpoint)

theorem sameLeg_iff {s t : Span} (hs : s.WellTyped) (ht : t.WellTyped) :
    s.sameLeg t = true ↔ s.legKey = t.legKey := by
  obtain ⟨i, hi⟩ := hs.id
  obtain ⟨j, hj⟩ := ht.id
  rw [sameLeg, hi, hj, Value.same_string, Bool.and_eq_true, Bool.and_eq_true, beq_iff_eq, beq_iff_eq,
    Endpoint.sameOption_iff hs.localEndpoint ht.localEndpoint, legKey, legKey, hi, hj,
    Prod.mk.injEq, Prod.mk.injEq, Value.string.injEq, and_assoc]

theorem combineFlag_isTrue {v w : Value} (hv : v.IsFlag) (hw : w.IsFlag) :
    (combineFlag v w).isTrue = (v.isTrue || w.isTrue) := by
  rw [combineFlag, hv.isSet, hw.isSet]
  cases h : (v.isTrue || w.isTrue) with
  | true => rfl
  | false => exact (Bool.or_eq_false_iff.1 h).1

theorem isFlag_combineFlag {v : Value} (hv : v.IsFlag) (w : Value) : (combineFlag v w).IsFlag := by
  unfold combineFlag
  split
  · exact .present true
  · exact hv

theorem holds_combineName {P : Value → Prop} {v w : Value} (hv : P v) (hw : P w) :
    P (combineName v w) := by
  unfold combineName
  split
  · exact hv
  · exact Value.holds_orElse hw hv

/-- Two parts as one. -/
def joined (s t : Span) : Span :=
  { s with
    parentId := s.parentId.orElse t.parentId
    kind := s.kind.orElse t.kind
    name := combineName s.name t.name
    timestamp := s.timestamp.orElse t.timestamp
    duration := s.duration.orElse t.duration
    localEndpoint := Endpoint.combineOption s.localEndpoint t.localEndpoint
    remoteEndpoint := Endpoint.combineOption s.remoteEndpoint t.remoteEndpoint
    annotations := Annotation.united s.annotations t.annotations
    tags := Table.update s.tags t.tags
    debug := combineFlag s.debug t.debug
    shared := combineFlag s.shared t.shared }

theorem serviceName_joined (s t : Span) : (s.joined t).serviceName = s.serviceName ∨
    (s.joined t).serviceName = t.serviceName := by
  have hlocal : (s.joined t).localEndpoint =
      Endpoint.combineOption s.localEndpoint t.localEndpoint := rfl
  rw [serviceName, hlocal, serviceName, serviceName]
  cases s.localEndpoint with
  | none => exact .inr rfl
  | some e =>
      cases t.localEndpoint with
      | none => exact .inl rfl
      | some f => exact Value.orElse_eq_or e.serviceName f.serviceName

theorem name_joined (s t : Span) : (s.joined t).name = s.name ∨ (s.joined t).name = t.name := by
  show combineName s.name t.name = _ ∨ combineName s.name t.name = _
  unfold combineName
  split
  · exact .inl rfl
  · exact (Value.orElse_eq_or t.name s.name).symm

namespace Workable

variable {s t : Span} (hs : s.Workable) (ht : t.Workable)
include hs ht

theorem append : ∀ a ∈ s.annotations ++ t.annotations, a.WellTyped := by
  intro a ha
  rcases List.mem_append.1 ha with ha | ha
  · exact hs.annotations a ha
  · exact ht.annotations a ha

theorem joined : (s.joined t).Workable where
  traceId := hs.traceId
  id := hs.id
  parentId := Value.holds_orElse hs.parentId ht.parentId
  serviceName := by
    rcases serviceName_joined s t with h | h
    · exact h ▸ hs.serviceName
    · exact h ▸ ht.serviceName
  annotations a ha := hs.append ht a <| Annotation.mem_of_mem_united ha

end Workable

theorem combine_eq {s t : Span} (hs : s.Workable) (ht : t.Workable) :
    s.combine t = .ok (s.joined t) := by
  rw [combine, Annotation.union_eq (hs.append ht)]
  rfl

section

variable {s t : Span} (hs : s.WellTyped) (ht : t.WellTyped)
include hs ht

theorem wellTyped_append : ∀ a ∈ s.annotations ++ t.annotations, a.WellTyped :=
  hs.workable.append ht.workable

theorem wellTyped_joined : (s.joined t).WellTyped where
  traceId := hs.traceId
  id := hs.id
  parentId := Value.holds_orElse hs.parentId ht.parentId
  kind := Value.holds_orElse hs.kind ht.kind
  name := holds_combineName hs.name ht.name
  timestamp := Value.holds_orElse hs.timestamp ht.timestamp
  duration := Value.holds_orElse hs.duration ht.duration
  localEndpoint :=
    Endpoint.holds_combineOption (fun _ _ => .combine) hs.localEndpoint ht.localEndpoint
  remoteEndpoint :=
    Endpoint.holds_combineOption (fun _ _ => .combine) hs.remoteEndpoint ht.remoteEndpoint
  annotations a ha := wellTyped_append hs ht a <| Annotation.mem_of_mem_united ha
  tags entry hentry := by
    rcases Table.mem_of_mem_update hentry with h | h
    · exact hs.tags entry h
    · exact ht.tags entry h
  tagNames := Table.nodup_keys_update hs.tagNames
  debug := isFlag_combineFlag hs.debug t.debug
  shared := isFlag_combineFlag hs.shared t.shared

theorem legKey_joined (h : t.legKey = s.legKey) : (s.joined t).legKey = s.legKey := by
  obtain ⟨-, h⟩ := Prod.mk.inj h
  obtain ⟨hshared, hendpoint⟩ := Prod.mk.inj h
  have hflag : (s.joined t).isShared = s.isShared := by
    rw [isShared, joined, combineFlag_isTrue hs.shared ht.shared]
    rw [isShared, isShared] at hshared
    rw [hshared, Bool.or_self, isShared]
  have hlocal : (s.joined t).localEndpoint = s.localEndpoint := by
    rw [joined, hendpoint, Endpoint.combineOption_self]
  rw [legKey, legKey, hflag, hlocal]
  rfl

end

def joinedAll (s : Span) (others : List Span) : Span := others.foldl joined s

theorem joinedAll_induction {P : Span → Prop} {s : Span} {others : List Span} (hs : P s)
    (hjoin : ∀ s t, P s → t ∈ others → P (s.joined t)) : P (s.joinedAll others) := by
  induction others generalizing s with
  | nil => exact hs
  | cons t others ih =>
      exact ih (hjoin s t hs List.mem_cons_self)
        fun s u hs hu => hjoin s u hs (List.mem_cons_of_mem t hu)

theorem combineAll_eq {s : Span} {others : List Span} (hs : s.Workable)
    (hothers : ∀ t ∈ others, t.Workable) : s.combineAll others = .ok (s.joinedAll others) := by
  induction others generalizing s with
  | nil => rfl
  | cons t others ih =>
      have ht : t.Workable := hothers t List.mem_cons_self
      rw [combineAll, combine_eq hs ht]
      exact ih (hs.joined ht) fun u hu => hothers u (List.mem_cons_of_mem t hu)

end Span

end SpanForest
