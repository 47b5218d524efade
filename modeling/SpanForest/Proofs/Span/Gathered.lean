import SpanForest.Proofs.Span.Joined

/-!
What a span holds that is joined from parts of one leg. Annotations and tag names are those of all
parts; a tag has the value of the last part that has it, and most other fields that of the first part
that has one. Two spans that gather parts are joined to one that gathers the parts of both. Not
covered: trace ids, parents and remote endpoints.
-/

namespace SpanForest

namespace Annotation

theorem same_iff {a b : Annotation} (ha : a.WellTyped) (hb : b.WellTyped) :
    a.same b = true ↔ a = b := by
  obtain ⟨m, hm⟩ := ha.timestamp
  obtain ⟨s, hs⟩ := ha.value
  obtain ⟨n, hn⟩ := hb.timestamp
  obtain ⟨t, ht⟩ := hb.value
  obtain ⟨timestamp, value⟩ := a
  obtain ⟨timestamp', value'⟩ := b
  simp only at hm hs hn ht
  simp [same, hm, hs, hn, ht, Value.same_int, Value.same_string]

theorem mem_distinctFrom {seen as : List Annotation} (hseen : ∀ b ∈ seen, b.WellTyped)
    (has : ∀ a ∈ as, a.WellTyped) {a : Annotation} (ha : a ∈ as) :
    a ∈ seen ∨ a ∈ distinctFrom seen as := by
  induction as generalizing seen with
  | nil => cases ha
  | cons b as ih =>
      have hb : b.WellTyped := has b List.mem_cons_self
      have hrest : ∀ c ∈ as, c.WellTyped := fun c hc => has c (List.mem_cons_of_mem b hc)
      rw [distinctFrom]
      split
      · next hany =>
          obtain ⟨c, hc, hsame⟩ := List.any_eq_true.1 hany
          rcases List.mem_cons.1 ha with rfl | ha
          · exact .inl ((same_iff (hseen c hc) hb).1 hsame ▸ hc)
          · exact ih hseen hrest ha
      · rcases List.mem_cons.1 ha with rfl | ha
        · exact .inr List.mem_cons_self
        · have hseen' : ∀ c ∈ seen ++ [b], c.WellTyped := by
            simpa [or_imp, forall_and] using And.intro hseen hb
          have h := ih hseen' hrest ha
          simp only [List.mem_append, List.mem_singleton] at h
          simp only [List.mem_cons]
          tauto

theorem mem_united {as bs : List Annotation} (h : ∀ a ∈ as ++ bs, a.WellTyped) {a : Annotation} :
    a ∈ united as bs ↔ a ∈ as ∨ a ∈ bs := by
  rw [← List.mem_append]
  refine ⟨mem_of_mem_united, fun ha => (Sorting.sortStable_perm _ _).mem_iff.2 ?_⟩
  have hseen : ∀ b ∈ ([] : List Annotation), b.WellTyped := nofun
  exact (mem_distinctFrom hseen h ha).resolve_left List.not_mem_nil

end Annotation

structure Value.KeepsFirst (counts : Value → Bool) (choose : Value → Value → Value) : Prop where
  first : ∀ v w, counts v = true → choose v w = v
  second : ∀ v w, counts v = false → counts w = true → choose v w = w
  neither : ∀ v w, counts v = false → counts w = false → counts (choose v w) = false

namespace Value

theorem keepsFirst_orElse : KeepsFirst isSet orElse where
  first _ _ hv := orElse_of_isSet hv
  second _ _ hv _ := orElse_of_not_isSet hv
  neither _ _ hv hw := by rwa [orElse_of_not_isSet hv]

/-- The first of some values that counts is in hand once they have been chosen between one by one. -/
def IsFirst (counts : Value → Bool) (vs : List Value) (v : Value) : Prop :=
  vs.find? counts = if counts v then some v else none

theorem isFirst_singleton (counts : Value → Bool) (v : Value) : IsFirst counts [v] v := by
  rw [IsFirst, List.find?_singleton]

theorem IsFirst.append {counts : Value → Bool} {choose : Value → Value → Value}
    (keeps : KeepsFirst counts choose) {vs ws : List Value} {v w : Value}
    (hv : IsFirst counts vs v) (hw : IsFirst counts ws w) :
    IsFirst counts (vs ++ ws) (choose v w) := by
  rw [IsFirst, List.find?_append, hv, hw]
  cases hcv : counts v with
  | true => simp [keeps.first v w hcv, hcv]
  | false =>
      cases hcw : counts w with
      | true => simp [keeps.second v w hcv hcw, hcw]
      | false => simp [keeps.neither v w hcv hcw]

end Value

namespace Span

/-- Whether a name says something. -/
def isTelling (name : Value) : Bool := name.isSet && !name.same unknownName

theorem combineName_of_not_isTelling {v : Value} (h : isTelling v = false) (w : Value) :
    combineName v w = w.orElse v :=
  if_neg (Bool.eq_false_iff.1 h)

theorem keepsFirst_combineName : Value.KeepsFirst isTelling combineName where
  first v w hv := if_pos hv
  second v w hv hw := by
    have hset : w.isSet = true := (Bool.and_eq_true_iff.1 hw).1
    rw [combineName_of_not_isTelling hv, Value.orElse_of_isSet hset]
  neither v w hv hw := by
    rw [combineName_of_not_isTelling hv]
    rcases Value.orElse_eq_or w v with h | h
    · rwa [h]
    · rwa [h]

/-- `whole` holds what is in `parts`, which are parts of its leg, and nothing else. The first value
that counts of a kind, a timestamp, a duration and a name is that of `whole`; if none counts, that of
`whole` does not. -/
structure Gathers (parts : List Span) (whole : Span) : Prop where
  nonempty : parts ≠ []
  oneLeg : ∀ p ∈ parts, p.legKey = whole.legKey
  annotations : ∀ a, a ∈ whole.annotations ↔ ∃ p ∈ parts, a ∈ p.annotations
  tags : ∀ name, Table.find? name whole.tags =
    parts.reverse.findSome? fun p => Table.find? name p.tags
  kind : Value.IsFirst Value.isSet (parts.map Span.kind) whole.kind
  timestamp : Value.IsFirst Value.isSet (parts.map Span.timestamp) whole.timestamp
  duration : Value.IsFirst Value.isSet (parts.map Span.duration) whole.duration
  name : Value.IsFirst isTelling (parts.map Span.name) whole.name
  debug : whole.debug.isTrue = parts.any fun p => p.debug.isTrue

namespace Gathers

theorem single (s : Span) : Gathers [s] s where
  nonempty := List.cons_ne_nil s []
  oneLeg p hp := by rw [List.mem_singleton.1 hp]
  annotations a := by simp
  tags name := by
    rw [List.reverse_singleton, List.findSome?_cons]
    cases Table.find? name s.tags <;> rfl
  kind := Value.isFirst_singleton _ _
  timestamp := Value.isFirst_singleton _ _
  duration := Value.isFirst_singleton _ _
  name := Value.isFirst_singleton _ _
  debug := by simp

variable {ps qs : List Span} {s t : Span}

theorem relabel (h : Gathers ps s) (traceId parentId : Value) :
    Gathers ps { s with traceId, parentId } :=
  ⟨h.nonempty, h.oneLeg, h.annotations, h.tags, h.kind, h.timestamp, h.duration, h.name, h.debug⟩

theorem append (hps : Gathers ps s) (hqs : Gathers qs t) (hs : s.WellTyped) (ht : t.WellTyped)
    (hkey : t.legKey = s.legKey) : Gathers (ps ++ qs) (s.joined t) where
  nonempty := List.append_ne_nil_of_left_ne_nil hps.nonempty qs
  oneLeg p hp := by
    rw [legKey_joined hs ht hkey]
    rcases List.mem_append.1 hp with hp | hp
    · exact hps.oneLeg p hp
    · exact (hqs.oneLeg p hp).trans hkey
  annotations a := by
    have hunited : a ∈ (s.joined t).annotations ↔ a ∈ s.annotations ∨ a ∈ t.annotations :=
      Annotation.mem_united (wellTyped_append hs ht)
    rw [hunited, hps.annotations, hqs.annotations]
    simp only [List.mem_append, or_and_right, exists_or]
  tags name := by
    have hupdate : Table.find? name (s.joined t).tags =
        (Table.find? name t.tags).or (Table.find? name s.tags) := Table.find?_update name _ ht.tagNames
    rw [hupdate, hps.tags, hqs.tags, List.reverse_append, List.findSome?_append]
  kind := by
    rw [List.map_append]
    exact hps.kind.append Value.keepsFirst_orElse hqs.kind
  timestamp := by
    rw [List.map_append]
    exact hps.timestamp.append Value.keepsFirst_orElse hqs.timestamp
  duration := by
    rw [List.map_append]
    exact hps.duration.append Value.keepsFirst_orElse hqs.duration
  name := by
    rw [List.map_append]
    exact hps.name.append keepsFirst_combineName hqs.name
  debug := by
    have hflag : (s.joined t).debug.isTrue = (s.debug.isTrue || t.debug.isTrue) :=
      combineFlag_isTrue hs.debug ht.debug
    rw [hflag, hps.debug, hqs.debug, List.any_append]

end Gathers

end Span

end SpanForest
