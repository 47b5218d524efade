import SpanForest.Proofs.Table.Partition
import SpanForest.Proofs.Tree.Absorption

/-!
The parents that a builder knows. Entering a registration notes the parent by its ids; taking it in
notes its preferred parent, and the root's key gives its place up. At the end each key but the
root's has its resolved parent, in the order of first registration.
-/

namespace SpanForest

open Registered

variable {I V : Type} [BEq I]

namespace Builder

structure ParentsAfter (rs done : List (Registration I V)) (b : Builder I V) : Prop where
  nodup : (Table.keys b.parentOf).Nodup
  keys_eq : (Table.keys b.parentOf).filter (fun k => !(rootKey? done == some k)) =
    (rs.map Registration.key).eraseDups.filter (fun k => !(rootKey? done == some k))
  parent : ∀ k, rootKey? done ≠ some k →
    b.parentOf.find? k = if has rs k then some (parentAfter rs done k) else none

namespace ParentsAfter

variable {rs done : List (Registration I V)} {b : Builder I V} (h : ParentsAfter rs done b)
include h

theorem find?_shared_isSome (i : I) :
    (b.parentOf.find? ⟨i, true⟩).isSome = has rs ⟨i, true⟩ := by
  have hne : rootKey? done ≠ some ⟨i, true⟩ := by
    intro hroot
    exact absurd (rootKey?_plain hroot).1 (by simp)
  rw [h.parent _ hne]
  split
  · next hhas => rw [hhas]; rfl
  · next hhas => rw [Bool.eq_false_iff.2 hhas]; rfl

theorem notePreferred_parentFor (r : Registration I V) :
    (b.notePreferred r.key (b.parentFor r)).parentOf =
      match preferred rs r with
      | some q => b.parentOf.put r.key (some q)
      | none => b.parentOf := by
  cases hs : r.shared with
  | true => simp [parentFor, notePreferred, preferred, hs]
  | false =>
      cases hp : r.parentId with
      | none => simp [parentFor, notePreferred, preferred, hs, hp]
      | some p =>
          cases hhas : has rs ⟨p, true⟩ <;>
            simp [parentFor, notePreferred, preferred, hs, hp, h.find?_shared_isSome, hhas,
              Option.filter_some]

theorem joined {r : Registration I V} (headless : r.isHeadless = true)
    (hsome : rootKey? done = some r.key) (g : Graph V) :
    ParentsAfter rs (done ++ [r]) { b with graph := g } := by
  have hroot : rootKey? (done ++ [r]) = rootKey? done := by
    rw [rootKey?_append_singleton, hsome]
    rfl
  refine ⟨h.nodup, hroot ▸ h.keys_eq, ?_⟩
  intro k hk
  rw [parentAfter_append_singleton, preferred_of_isHeadless rs headless, Option.none_or, ite_self]
  exact h.parent k (hroot ▸ hk)

variable [LawfulBEq I]

theorem planted {r : Registration I V} (headless : r.isHeadless = true)
    (hnone : rootKey? done = none) :
    ParentsAfter rs (done ++ [r]) (b.plant r.key r.value) := by
  have hroot : rootKey? (done ++ [r]) = some r.key := by
    rw [rootKey?_append_singleton, hnone, headless]
    rfl
  refine ⟨Table.nodup_keys_erase h.nodup, ?_, ?_⟩
  · have hkeys := h.keys_eq
    simp only [hnone, Option.none_beq_some, Bool.not_false, List.filter_true] at hkeys
    rw [plant, Table.keys_erase, hkeys, hroot, List.filter_filter]
    refine List.filter_congr fun k _ => ?_
    rw [Option.some_beq_some, BEq.comm]
    exact Bool.and_self _
  · intro k hk
    have hne : (r.key == k) = false := by
      rw [beq_eq_false_iff_ne]
      exact fun he => hk (by rw [hroot, he])
    rw [plant, Table.find?_erase, hne, if_neg Bool.false_ne_true, h.parent k (by simp [hnone]),
      parentAfter_append_singleton, hne, if_neg Bool.false_ne_true]

theorem placed {r : Registration I V} (hr : r ∈ rs)
    (hroot : rootKey? (done ++ [r]) = rootKey? done) (v : V) :
    ParentsAfter rs (done ++ [r]) ((b.notePreferred r.key (b.parentFor r)).place r.key v) := by
  have hhas : has rs r.key = true := has_iff.2 (List.mem_map_of_mem hr)
  have hparents : ((b.notePreferred r.key (b.parentFor r)).place r.key v).parentOf = _ :=
    h.notePreferred_parentFor r
  cases hpreferred : preferred rs r with
  | none =>
      rw [hpreferred] at hparents
      refine ⟨hparents ▸ h.nodup, ?_, ?_⟩
      · rw [hparents, hroot]
        exact h.keys_eq
      · intro k hk
        rw [parentAfter_append_singleton, hpreferred, Option.none_or, ite_self, hparents]
        exact h.parent k (hroot ▸ hk)
  | some q =>
      rw [hpreferred] at hparents
      dsimp only at hparents
      refine ⟨hparents ▸ Table.nodup_keys_put h.nodup, ?_, ?_⟩
      · rw [hparents, hroot, Table.keys_put, ← h.keys_eq]
        split
        · rfl
        · next hnew =>
            -- only the root's key can be missing, and it is passed over
            have hkey : rootKey? done = some r.key := by
              by_contra hne
              have hmem : r.key ∈ Table.keys b.parentOf := by
                rw [Table.mem_keys_iff, h.parent _ hne, hhas]
                rfl
              exact hnew (List.any_eq_true.2 ⟨r.key, hmem, beq_self_eq_true _⟩)
            simp [List.filter_append, hkey]
      · intro k hk
        rw [hparents, Table.find?_put, parentAfter_append_singleton, hpreferred,
          h.parent k (hroot ▸ hk)]
        cases hk : r.key == k with
        | true => simp [← eq_of_beq hk, hhas]
        | false => rfl

end ParentsAfter

def entered (rs : List (Registration I V)) : Builder I V := rs.foldl enter {}

theorem entered_append_singleton (rs : List (Registration I V)) (r : Registration I V) :
    entered (rs ++ [r]) = (entered rs).enter r := by
  simp [entered, List.foldl_append]

theorem entered_eq (rs : List (Registration I V)) :
    entered rs = { entries := rs, parentOf := (entered rs).parentOf } := by
  induction rs using List.reverseRecOn with
  | nil => rfl
  | append_singleton rs r ih =>
      rw [entered_append_singleton, ih]
      rfl

theorem entries_entered (rs : List (Registration I V)) : (entered rs).entries = rs := by
  rw [entered_eq]

variable [LawfulBEq I]

theorem keys_entered (rs : List (Registration I V)) :
    Table.keys (entered rs).parentOf = (rs.map Registration.key).eraseDups := by
  induction rs using List.reverseRecOn with
  | nil => rfl
  | append_singleton rs r ih =>
      rw [entered_append_singleton, List.map_append]
      exact Table.keys_put_eraseDups ih r.key r.plainParent

theorem nodup_keys_entered (rs : List (Registration I V)) :
    (Table.keys (entered rs).parentOf).Nodup := by
  rw [keys_entered]
  exact Table.nodup_eraseDups _

theorem find?_entered (rs : List (Registration I V)) (k : Key I) :
    (entered rs).parentOf.find? k = if has rs k then some (parentAfter rs [] k) else none := by
  induction rs using List.reverseRecOn with
  | nil => rfl
  | append_singleton rs r ih =>
      have hhas : has (rs ++ [r]) k = (has rs k || r.key == k) := by simp [has]
      rw [entered_append_singleton, enter, Table.find?_put, hhas, parentAfter_nil]
      rw [parentAfter_nil] at ih
      cases hk : r.key == k with
      | true => simp [List.filter_append, hk]
      | false => simp [List.filter_append, hk, ih]

theorem parentsAfter_entered (rs : List (Registration I V)) : ParentsAfter rs [] (entered rs) where
  nodup := nodup_keys_entered rs
  keys_eq := by rw [keys_entered]
  parent k _ := find?_entered rs k

end Builder

end SpanForest
