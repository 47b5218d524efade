import SpanForest.Proofs.Trace.Groups

/-!
Grouping spans by trace is a stable partition. The traces come in the order of their first spans,
each with its spans in the order in which they were given, and putting the groups one after the
other changes nothing about them. Of trace ids that are no strings only this is known, that no span
is lost.
-/

namespace SpanForest.Trace

variable {spans : List Span} (h : ∀ s ∈ spans, ∃ i, s.traceId = .string i)

theorem flatMap_blockGroups (blocks : Table Text (List Span)) :
    (blockGroups blocks).flatMap Prod.snd = blocks.flatMap Prod.snd := by
  rw [blockGroups, Table.image, List.flatMap_map]
  rfl

include h

theorem value_keys_groups :
    (Table.keys (groups spans)).map ValueKey.value = (spans.map Span.traceId).eraseDups := by
  have hkeys : (Table.keys (blockGroups (textBlocks spans))).map ValueKey.value =
      (Table.keys (textBlocks spans)).map Value.string := by
    rw [blockGroups, Table.image, Table.keys, Table.keys, List.map_map, List.map_map, List.map_map]
    rfl
  have hinjective : Function.Injective Value.string := fun _ _ heq => Value.string.inj heq
  have hids : (spans.map fun s => s.traceId.textOrEmpty).map Value.string = spans.map Span.traceId := by
    rw [List.map_map]
    apply List.map_congr_left
    intro s hs
    obtain ⟨i, hi⟩ := h s hs
    rw [Function.comp_apply, hi, Value.textOrEmpty]
  rw [groups_eq_textBlocks h, hkeys, textBlocks, Table.keys_partition, ← Table.eraseDups_map hinjective,
    hids]

theorem group_eq_filter {group : ValueKey × List Span} (hgroup : group ∈ groups spans) :
    group.2 = spans.filter fun s => s.traceId == group.1.value := by
  rw [groups_eq_textBlocks h] at hgroup
  obtain ⟨block, hblock, rfl⟩ := List.mem_map.1 hgroup
  obtain ⟨i, -, rfl⟩ := List.mem_map.1 hblock
  apply List.filter_congr
  intro s hs
  obtain ⟨j, hj⟩ := h s hs
  have hsame : (j == i) = (Value.string j == Value.string i) := by
    rw [Bool.eq_iff_iff, beq_iff_eq, beq_iff_eq, Value.string.injEq]
  dsimp only [stringKey]
  rwa [hj, Value.textOrEmpty]

theorem groups_flatMap_groups : groups ((groups spans).flatMap Prod.snd) = groups spans := by
  rw [groups_eq_textBlocks h, flatMap_blockGroups]
  exact groups_blocks (blocks_textBlocks h)

/-- The groups are a stable partition of the spans, and grouping them again gives the same groups. -/
theorem groupByTrace_partitions : ∃ found, groupByTrace spans = .ok found ∧
    (Table.keys found).map ValueKey.value = (spans.map Span.traceId).eraseDups ∧
    (∀ group ∈ found, group.2 = spans.filter fun s => s.traceId == group.1.value) ∧
    (found.flatMap Prod.snd).Perm spans ∧ groupByTrace (found.flatMap Prod.snd) = .ok found := by
  have hperm := flatMap_groups_perm spans
  have hagain : ∀ s ∈ (groups spans).flatMap Prod.snd, ∃ i, s.traceId = .string i :=
    fun s hs => h s (hperm.mem_iff.1 hs)
  refine ⟨groups spans, groupByTrace_string h, value_keys_groups h, fun group => group_eq_filter h, hperm,
    ?_⟩
  rw [groupByTrace_string hagain, groups_flatMap_groups h]

omit h

def turnSpans : List Span :=
  [{ traceId := .string "2", id := .string "a" }, { traceId := .string "1", id := .string "b" },
    { traceId := .string "2", id := .string "c" }, { traceId := .string "1", id := .string "d" }]

theorem groupByTrace_partitions_turnSpans : (∀ s ∈ turnSpans, ∃ i, s.traceId = .string i) ∧
    ∃ found, groupByTrace turnSpans = .ok found ∧
      (Table.keys found).map ValueKey.value = (turnSpans.map Span.traceId).eraseDups ∧
      (∀ group ∈ found, group.2 = turnSpans.filter fun s => s.traceId == group.1.value) ∧
      (found.flatMap Prod.snd).Perm turnSpans ∧ groupByTrace (found.flatMap Prod.snd) = .ok found := by
  have hids : ∀ s ∈ turnSpans, ∃ i, s.traceId = .string i := by simp [turnSpans]
  exact ⟨hids, groupByTrace_partitions hids⟩

end SpanForest.Trace
