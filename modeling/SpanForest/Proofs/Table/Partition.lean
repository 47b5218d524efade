import Mathlib.Data.List.Induction
import SpanForest.Proofs.Table

/-!
Elements under their keys. Adding one element after the other to those under its key gives a
partition: each key in the order of its first element, with its elements in order. Nothing is lost
or entered twice, whatever the keys are told apart by.
-/

namespace SpanForest.Table

section

variable {κ α : Type} [BEq κ]

def extend (key : κ) (x : α) (t : Table κ (List α)) : Table κ (List α) :=
  t.put key ((t.find? key).getD [] ++ [x])

theorem flatMap_extend_perm (key : κ) (x : α) (t : Table κ (List α)) :
    ((t.extend key x).flatMap Prod.snd).Perm (t.flatMap Prod.snd ++ [x]) := by
  rw [extend]
  induction t with
  | nil => exact .refl _
  | cons entry rest ih =>
      rw [find?, put]
      split
      · rw [List.flatMap_cons, List.flatMap_cons, Option.getD_some, List.append_assoc, List.append_assoc]
        exact List.perm_append_comm.append_left entry.2
      · rw [List.flatMap_cons, List.flatMap_cons, List.append_assoc]
        exact ih.append_left entry.2

end

section

variable {κ : Type} [BEq κ] [LawfulBEq κ]

theorem eraseDups_append_singleton (ks : List κ) (k : κ) :
    (ks ++ [k]).eraseDups = if ks.contains k then ks.eraseDups else ks.eraseDups ++ [k] := by
  rw [List.eraseDups_append, List.removeAll, List.filter_singleton, List.elem_eq_contains]
  cases ks.contains k with
  | true => exact List.append_nil _
  | false => rfl

theorem nodup_eraseDups (ks : List κ) : ks.eraseDups.Nodup := by
  induction ks using List.reverseRecOn with
  | nil => exact .nil
  | append_singleton ks k ih =>
      rw [eraseDups_append_singleton]
      split
      · exact ih
      · next hnew =>
          refine List.nodup_append.2 ⟨ih, List.nodup_singleton k, ?_⟩
          intro l hl m hm hlm
          apply hnew
          rw [List.mem_singleton.1 hm] at hlm
          exact List.contains_iff_mem.2 (List.mem_eraseDups.1 (hlm ▸ hl))

theorem eraseDups_map {μ : Type} [BEq μ] [LawfulBEq μ] {f : κ → μ} (hf : Function.Injective f)
    (ks : List κ) : (ks.map f).eraseDups = ks.eraseDups.map f := by
  induction ks using List.reverseRecOn with
  | nil => rfl
  | append_singleton ks k ih =>
      have hcontains : (ks.map f).contains (f k) = ks.contains k := by
        rw [Bool.eq_iff_iff, List.contains_iff_mem, List.contains_iff_mem, List.mem_map_of_injective hf]
      rw [List.map_append, List.map_singleton, eraseDups_append_singleton, eraseDups_append_singleton,
        hcontains, ih]
      split
      · rfl
      · rw [List.map_append, List.map_singleton]

theorem keys_put_eraseDups {α : Type} {ks : List κ} {t : Table κ α} (h : keys t = ks.eraseDups) (k : κ)
    (a : α) : keys (t.put k a) = (ks ++ [k]).eraseDups := by
  have hany : (keys t).any (· == k) = ks.contains k := by
    rw [h, Bool.eq_iff_iff, List.any_beq', List.contains_iff_mem, List.contains_iff_mem, List.mem_eraseDups]
  rw [keys_put, hany, eraseDups_append_singleton, h]

end

variable {κ α : Type} [BEq κ] [LawfulBEq κ] (key : α → κ)

def partition (xs : List α) : Table κ (List α) :=
  (xs.map key).eraseDups.map fun k => (k, xs.filter fun x => key x == k)

omit [LawfulBEq κ] in
theorem keys_partition (xs : List α) : keys (partition key xs) = (xs.map key).eraseDups := by
  rw [keys, partition, List.map_map]
  exact List.map_id _

theorem nodup_keys_partition (xs : List α) : (keys (partition key xs)).Nodup := by
  rw [keys_partition]
  exact nodup_eraseDups _

theorem find?_partition (xs : List α) (k : κ) : find? k (partition key xs) =
    if (xs.map key).contains k then some (xs.filter fun x => key x == k) else none := by
  by_cases hk : k ∈ xs.map key
  · rw [if_pos (List.contains_iff_mem.2 hk)]
    apply find?_of_mem (nodup_keys_partition key xs)
    exact List.mem_map.2 ⟨k, List.mem_eraseDups.2 hk, rfl⟩
  · rw [if_neg (mt List.contains_iff_mem.1 hk)]
    apply find?_eq_none
    rwa [keys_partition, List.mem_eraseDups]

theorem getD_find?_partition (xs : List α) (k : κ) :
    (find? k (partition key xs)).getD [] = xs.filter fun x => key x == k := by
  rw [find?_partition]
  split
  · rfl
  · next hnew =>
      symm
      rw [Option.getD_none, List.filter_eq_nil_iff]
      intro x hx hkey
      apply hnew
      exact List.contains_iff_mem.2 (List.mem_map.2 ⟨x, hx, eq_of_beq hkey⟩)

theorem extend_partition (xs : List α) (x : α) :
    (partition key xs).extend (key x) x = partition key (xs ++ [x]) := by
  have hkeys : keys ((partition key xs).extend (key x) x) = keys (partition key (xs ++ [x])) := by
    rw [extend, keys_put_eraseDups (keys_partition key xs), keys_partition, List.map_append]
    rfl
  refine ext_find? hkeys (hkeys ▸ nodup_keys_partition key (xs ++ [x])) fun k => ?_
  rw [extend, find?_put, getD_find?_partition, find?_partition, find?_partition, List.map_append,
    List.filter_append, List.contains_append]
  cases hk : key x == k with
  | true =>
      obtain rfl := eq_of_beq hk
      simp
  | false =>
      have hsingle : ([x].map key).contains k = false := by
        rw [List.map_singleton, List.contains_cons, BEq.comm, hk]
        rfl
      rw [hsingle, Bool.or_false, List.filter_singleton, hk]
      simp

theorem flatMap_partition_perm (xs : List α) : ((partition key xs).flatMap Prod.snd).Perm xs := by
  induction xs using List.reverseRecOn with
  | nil => exact .nil
  | append_singleton xs x ih =>
      rw [← extend_partition]
      exact (flatMap_extend_perm (key x) x _).trans (ih.append_right [x])

end SpanForest.Table
