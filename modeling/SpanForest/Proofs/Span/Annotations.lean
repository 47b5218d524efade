import SpanForest.Proofs.Span.CleanupKey
import SpanForest.Proofs.Span.Gathered

/-!
Annotations of the declared kinds in order: by their timestamps, then by their values. Sorting them
never fails and leaves alone what is in order. The union of two lists of them is the one list in
order that has the annotations of both, each once, so unions can be bracketed in any way.
-/

namespace SpanForest

def Value.integerOrZero : Value → Int
  | .int n => n
  | _ => 0

namespace Annotation

def sortKey (a : Annotation) : Int ×ₗ Text :=
  toLex (a.timestamp.integerOrZero, a.value.textOrEmpty)

section

variable {a b : Annotation} (ha : a.WellTyped) (hb : b.WellTyped)
include ha hb

theorem before_eq : a.before b = .ok (Sorting.byKey sortKey a b) := by
  obtain ⟨m, hm⟩ := ha.timestamp
  obtain ⟨s, hs⟩ := ha.value
  obtain ⟨n, hn⟩ := hb.timestamp
  obtain ⟨t, ht⟩ := hb.value
  have hkey : Sorting.byKey sortKey a b = if m = n then decide (s < t) else decide (m < n) := by
    rw [← decide_toLex_lt, Sorting.byKey, sortKey, sortKey, hm, hn, hs, ht]
    rfl
  rw [hkey, before, hm, hn, hs, ht]
  simp only [Value.same_int, Value.same_string, Value.before_int, Value.before_string,
    decide_eq_true_eq, beq_iff_eq]
  split
  · split
    · next h => simp [h]
    · rfl
  · rfl

theorem eq_of_sortKey (h : a.sortKey = b.sortKey) : a = b := by
  obtain ⟨m, hm⟩ := ha.timestamp
  obtain ⟨s, hs⟩ := ha.value
  obtain ⟨n, hn⟩ := hb.timestamp
  obtain ⟨t, ht⟩ := hb.value
  obtain ⟨timestamp, value⟩ := a
  obtain ⟨timestamp', value'⟩ := b
  simp only at hm hs hn ht
  simp only [sortKey, hm, hs, hn, ht, Value.integerOrZero, Value.textOrEmpty, toLex_inj,
    Prod.mk.injEq] at h
  simp [hm, hs, hn, ht, h]

end

section

variable {as : List Annotation} (typed : ∀ a ∈ as, a.WellTyped)
include typed

theorem sort_eq : sort as = .ok (Sorting.sortStable (Sorting.byKey sortKey) as) := by
  rw [sort, Sorting.sort_plain fun a ha => isPlain_of_wellTyped (typed a ha)]
  refine congrArg Except.ok (Sorting.sortStable_congr fun a ha b hb => ?_)
  rw [Sorting.holds, before_eq (typed a ha) (typed b hb)]

theorem sort_of_inOrder (h : Sorting.InOrder sortKey as) : sort as = .ok as := by
  rw [sort_eq typed, Sorting.sortStable_of_inOrder sortKey h]

theorem eq_of_mem_iff {bs : List Annotation} (hmem : ∀ a, a ∈ as ↔ a ∈ bs)
    (has : Sorting.InOrder sortKey as) (hbs : Sorting.InOrder sortKey bs) (hnodup : as.Nodup)
    (hnodup' : bs.Nodup) : as = bs := by
  refine List.Perm.eq_of_pairwise (fun a b ha hb hab hba => ?_) has hbs
    ((List.perm_ext_iff_of_nodup hnodup hnodup').2 hmem)
  exact eq_of_sortKey (typed a ha) (typed b ((hmem b).2 hb)) (le_antisymm hab hba)

end

theorem notMem_distinctFrom {seen as : List Annotation} (typed : ∀ a ∈ as, a.WellTyped)
    {a : Annotation} (ha : a ∈ seen) : a ∉ distinctFrom seen as := by
  induction as generalizing seen with
  | nil => exact List.not_mem_nil
  | cons b as ih =>
      have hrest : ∀ c ∈ as, c.WellTyped := fun c hc => typed c (List.mem_cons_of_mem b hc)
      rw [distinctFrom]
      split
      · exact ih hrest ha
      · next hnew =>
          rw [List.mem_cons, not_or]
          refine ⟨?_, ih hrest (List.mem_append_left _ ha)⟩
          rintro rfl
          have hself := (same_iff (typed a List.mem_cons_self) (typed a List.mem_cons_self)).2 rfl
          exact hnew (List.any_eq_true.2 ⟨a, ha, hself⟩)

theorem nodup_distinctFrom (seen : List Annotation) {as : List Annotation}
    (typed : ∀ a ∈ as, a.WellTyped) : (distinctFrom seen as).Nodup := by
  induction as generalizing seen with
  | nil => exact List.nodup_nil
  | cons a as ih =>
      have hrest : ∀ b ∈ as, b.WellTyped := fun b hb => typed b (List.mem_cons_of_mem a hb)
      rw [distinctFrom]
      split
      · exact ih seen hrest
      · refine List.nodup_cons.2 ⟨notMem_distinctFrom hrest ?_, ih _ hrest⟩
        exact List.mem_append_right seen (List.mem_singleton_self a)

section

variable {as bs : List Annotation} (typed : ∀ a ∈ as ++ bs, a.WellTyped)
include typed

theorem united_eq : united as bs = Sorting.sortStable (Sorting.byKey sortKey) (distinct (as ++ bs)) := by
  refine Sorting.sortStable_congr fun a ha b hb => ?_
  rw [Sorting.holds, before_eq (typed a (mem_of_mem_distinctFrom ha))
    (typed b (mem_of_mem_distinctFrom hb))]

theorem inOrder_united : Sorting.InOrder sortKey (united as bs) := by
  rw [united_eq typed]
  exact Sorting.inOrder_sortStable sortKey _

theorem nodup_united : (united as bs).Nodup := by
  rw [united, (Sorting.sortStable_perm _ _).nodup_iff]
  exact nodup_distinctFrom [] typed

theorem wellTyped_united : ∀ a ∈ united as bs, a.WellTyped :=
  fun a ha => typed a (mem_of_mem_united ha)

end

theorem united_assoc {as bs cs : List Annotation} (has : ∀ a ∈ as, a.WellTyped)
    (hbs : ∀ b ∈ bs, b.WellTyped) (hcs : ∀ c ∈ cs, c.WellTyped) :
    united (united as bs) cs = united as (united bs cs) := by
  have hab : ∀ a ∈ as ++ bs, a.WellTyped := List.forall_mem_append.2 ⟨has, hbs⟩
  have hbc : ∀ b ∈ bs ++ cs, b.WellTyped := List.forall_mem_append.2 ⟨hbs, hcs⟩
  have hleft : ∀ a ∈ united as bs ++ cs, a.WellTyped :=
    List.forall_mem_append.2 ⟨wellTyped_united hab, hcs⟩
  have hright : ∀ a ∈ as ++ united bs cs, a.WellTyped :=
    List.forall_mem_append.2 ⟨has, wellTyped_united hbc⟩
  refine eq_of_mem_iff (wellTyped_united hleft) (fun a => ?_) (inOrder_united hleft)
    (inOrder_united hright) (nodup_united hleft) (nodup_united hright)
  rw [mem_united hleft, mem_united hright, mem_united hab, mem_united hbc, or_assoc]

end Annotation

end SpanForest
