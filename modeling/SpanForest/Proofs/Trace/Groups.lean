import SpanForest.Proofs.Table.Partition
import SpanForest.Proofs.Trace.Assembled
import SpanForest.Trace.Grouping

/-!
Spans by trace, and put together again trace by trace. Grouping spans whose trace ids are strings
gives blocks of one trace each, and grouping the blocks one after the other gives the same blocks.
-/

namespace SpanForest

namespace Table

variable {κ α : Type} [BEq κ] [LawfulBEq κ] {key : κ} {t : Table κ α}

theorem find?_append_last (h : key ∉ keys t) (value : α) :
    find? key (t ++ [(key, value)]) = some value := by
  rw [← put_of_notMem h, find?_put_self]

theorem put_append_last (h : key ∉ keys t) (value value' : α) :
    put key value' (t ++ [(key, value)]) = t ++ [(key, value')] := by
  rw [← put_of_notMem h, put_put_self, put_of_notMem h]

end Table

namespace Trace

structure Blocks (blocks : Table Text (List Span)) : Prop where
  names : (Table.keys blocks).Nodup
  notEmpty : ∀ b ∈ blocks, b.2 ≠ []
  traceId : ∀ b ∈ blocks, ∀ s ∈ b.2, s.traceId = .string b.1

def blockGroups (blocks : Table Text (List Span)) : Groups := blocks.image stringKey id

theorem addTo_blockGroups (blocks : Table Text (List Span)) {s : Span} {i : Text}
    (hs : s.traceId = .string i) : addTo (blockGroups blocks) s =
      blockGroups (blocks.put i ((blocks.find? i).getD [] ++ [s])) := by
  have same (k l : Text) : (stringKey k == stringKey l) = (k == l) := ValueKey.beq_string k l
  have hfind := Table.find?_image same id i blocks
  rw [Option.map_id] at hfind
  rw [blockGroups, blockGroups, Table.image_put same, addTo, hs]
  show Table.put (stringKey i) ((Table.find? (stringKey i) _).getD [] ++ [s]) _ = _
  rw [hfind]
  rfl

theorem foldl_addTo_block {blocks : Table Text (List Span)} {i : Text}
    (hi : i ∉ Table.keys blocks) {done rest : List Span} (hrest : ∀ s ∈ rest, s.traceId = .string i) :
    rest.foldl addTo (blockGroups (blocks ++ [(i, done)])) =
      blockGroups (blocks ++ [(i, done ++ rest)]) := by
  induction rest generalizing done with
  | nil => rw [List.append_nil, List.foldl_nil]
  | cons s rest ih =>
      rw [List.foldl_cons, addTo_blockGroups _ (hrest s List.mem_cons_self),
        Table.find?_append_last hi, Table.put_append_last hi,
        ih fun t ht => hrest t (List.mem_cons_of_mem s ht)]
      simp

theorem foldl_addTo_blocks (before : Table Text (List Span)) {blocks : Table Text (List Span)}
    (h : Blocks (before ++ blocks)) :
    (blocks.flatMap Prod.snd).foldl addTo (blockGroups before) = blockGroups (before ++ blocks) := by
  induction blocks generalizing before with
  | nil => simp
  | cons b blocks ih =>
      have hsplit : before ++ b :: blocks = before ++ [b] ++ blocks := by simp
      have hb : b ∈ before ++ b :: blocks := by simp
      have hnew : b.1 ∉ Table.keys before := by
        have hnames := h.names
        rw [Table.keys, List.map_append, List.map_cons, List.nodup_append] at hnames
        exact fun hmem => hnames.2.2 _ hmem _ List.mem_cons_self rfl
      obtain ⟨i, spans⟩ := b
      obtain ⟨s, rest, rfl⟩ := List.exists_cons_of_ne_nil (h.notEmpty _ hb)
      obtain ⟨hs, hrest⟩ := List.forall_mem_cons.1 (h.traceId _ hb)
      rw [List.flatMap_cons, List.foldl_append, List.foldl_cons, addTo_blockGroups before hs,
        Table.find?_eq_none hnew, Table.put_of_notMem hnew]
      have hblock : rest.foldl addTo (blockGroups (before ++ [(i, [s])])) =
        blockGroups (before ++ [(i, [s] ++ rest)]) := foldl_addTo_block hnew hrest
      rw [hsplit] at h ⊢
      rw [Option.getD_none, List.nil_append, hblock]
      exact ih _ h

theorem groups_blocks {blocks : Table Text (List Span)} (h : Blocks blocks) :
    groups (blocks.flatMap Prod.snd) = blockGroups blocks :=
  foldl_addTo_blocks [] h

def textBlocks (spans : List Span) : Table Text (List Span) :=
  Table.partition (fun s : Span => s.traceId.textOrEmpty) spans

theorem blocks_textBlocks {spans : List Span} (h : ∀ s ∈ spans, ∃ i, s.traceId = .string i) :
    Blocks (textBlocks spans) where
  names := Table.nodup_keys_partition _ spans
  notEmpty b hb := by
    obtain ⟨i, hi, rfl⟩ := List.mem_map.1 hb
    obtain ⟨s, hs, hid⟩ := List.mem_map.1 (List.mem_eraseDups.1 hi)
    exact List.ne_nil_of_mem (List.mem_filter.2 ⟨hs, beq_iff_eq.2 hid⟩)
  traceId b hb s hs := by
    obtain ⟨i, -, rfl⟩ := List.mem_map.1 hb
    obtain ⟨hs, hid⟩ := List.mem_filter.1 hs
    obtain ⟨j, hj⟩ := h s hs
    dsimp only at hid ⊢
    rw [hj, Value.textOrEmpty, beq_iff_eq] at hid
    rw [hj, hid]

theorem groups_eq_textBlocks {spans : List Span} (h : ∀ s ∈ spans, ∃ i, s.traceId = .string i) :
    groups spans = blockGroups (textBlocks spans) := by
  induction spans using List.reverseRecOn with
  | nil => rfl
  | append_singleton spans s ih =>
      obtain ⟨i, hi⟩ := h s (List.mem_append_right _ List.mem_cons_self)
      rw [groups_append, ih fun t ht => h t (List.mem_append_left _ ht), addTo_blockGroups _ hi, textBlocks,
        textBlocks, ← Table.extend_partition, Table.extend, hi]
      rfl

theorem flatMap_groups_perm (spans : List Span) : ((groups spans).flatMap Prod.snd).Perm spans := by
  induction spans using List.reverseRecOn with
  | nil => exact .nil
  | append_singleton spans s ih =>
      rw [groups_append]
      exact (Table.flatMap_extend_perm _ s (groups spans)).trans (ih.append_right [s])

theorem mem_of_mem_groups {spans : List Span} {group : ValueKey × List Span}
    (hgroup : group ∈ groups spans) {s : Span} (hs : s ∈ group.2) : s ∈ spans :=
  (flatMap_groups_perm spans).mem_iff.1 (List.mem_flatMap.2 ⟨group, hgroup, hs⟩)

end Trace

end SpanForest
