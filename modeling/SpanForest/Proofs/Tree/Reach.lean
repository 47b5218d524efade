import SpanForest.Proofs.Tree.Worklist
import SpanForest.Tree.Traversal

/-!
What is reached from a node by way of children. Where no node is a child twice and the start is
none, it is a finite tree, and both the queue of a traversal and the stack of a drawing come to an
end on it after meeting every node once, each after its parent. What the root does not reach may be
cyclic.
-/

namespace SpanForest.Graph

open Worklist

variable {V : Type}

def Reaches (g : Graph V) : NodeId → NodeId → Prop :=
  Relation.ReflTransGen fun m n => n ∈ g.children m

/-- What is reached from `root` is a finite tree: the root has no parent and is no node's child, and
every other node is a child once, of the one node that its parent link names. -/
structure IsTree (g : Graph V) (root : NodeId) : Prop where
  bounded : ∀ n, g.Reaches root n → n < g.size
  root_parent : g.parent root = none
  root_free : ∀ m, root ∉ g.children m
  placed : ∀ n, g.Reaches root n → n ≠ root →
    ∃ m, g.Reaches root m ∧ g.parent n = some m ∧ (g.children m).count n = 1 ∧
      ∀ other, n ∈ g.children other → other = m

/-- All nodes reached from `root`, each once and after its parent. -/
structure Enumerates (g : Graph V) (root : NodeId) (visited : List NodeId) : Prop where
  nodup : visited.Nodup
  mem_iff : ∀ n, n ∈ visited ↔ g.Reaches root n
  parent_first : ∀ before n after, visited = before ++ n :: after → n ≠ root →
    ∃ m ∈ before, g.parent n = some m

def childrenBelow (g : Graph V) (place : NodeId × Nat) : List (NodeId × Nat) :=
  (g.children place.1).map (·, place.2 + 1)

/-- The first `limit` nodes taken from a stack of nodes and their depths, next one first. The
children of a node go on top, the first of them uppermost. -/
def descend (g : Graph V) (limit : Nat) (stack : List (NodeId × Nat)) : List (NodeId × Nat) :=
  workOff (fun pending new => new ++ pending) g.childrenBelow limit stack

theorem visit_eq_workOff (g : Graph V) (limit : Nat) (queue : List NodeId) :
    g.visit limit queue = workOff (fun pending new => pending ++ new) g.children limit queue := by
  induction limit generalizing queue with
  | zero => rfl
  | succ limit ih =>
      cases queue with
      | nil => rfl
      | cons n queue => exact congrArg (n :: ·) (ih (queue ++ g.children n))

theorem descend_nodes (g : Graph V) (limit : Nat) (stack : List (NodeId × Nat)) :
    (g.descend limit stack).map Prod.fst =
        workOff (fun pending new => new ++ pending) g.children limit (stack.map Prod.fst) ∧
      (leftover (fun pending new => new ++ pending) g.childrenBelow limit stack).map Prod.fst =
        leftover (fun pending new => new ++ pending) g.children limit (stack.map Prod.fst) := by
  have hpush (pending new : List (NodeId × Nat)) :
      (new ++ pending).map Prod.fst = new.map Prod.fst ++ pending.map Prod.fst := List.map_append
  have hnext (place : NodeId × Nat) : (g.childrenBelow place).map Prod.fst = g.children place.1 := by
    simp [childrenBelow, Function.comp_def]
  exact map_workOff hpush hnext limit stack

structure WellLinked (g : Graph V) (root : NodeId) : Prop where
  root_lt : root < g.size
  root_parent : g.parent root = none
  bounded : ∀ m n, n ∈ g.children m → n < g.size
  parent : ∀ m n, n ∈ g.children m → g.parent n = some m
  once : ∀ m, (g.children m).Nodup

namespace WellLinked

variable {g : Graph V} {root : NodeId} (h : g.WellLinked root)
include h

theorem branching : Branching g.children root where
  once := h.once
  apart m n c hm hn := Option.some.inj ((h.parent m c hm).symm.trans (h.parent n c hn))
  root_free m hm := by
    have hparent := h.parent m root hm
    rw [h.root_parent] at hparent
    cases hparent

theorem lt_size {n : NodeId} (hreach : g.Reaches root n) : n < g.size := by
  cases hreach with
  | refl => exact h.root_lt
  | tail _ hstep => exact h.bounded _ _ hstep

theorem isTree : g.IsTree root where
  bounded _ := h.lt_size
  root_parent := h.root_parent
  root_free := h.branching.root_free
  placed n hreach hne := by
    cases hreach with
    | refl => exact absurd rfl hne
    | @tail m _ hm hstep =>
        exact ⟨m, hm, h.parent m n hstep, List.count_eq_one_of_mem (h.once m) hstep,
          fun other hother => h.branching.apart other m n hother hstep⟩

section Order

variable {push : List NodeId → List NodeId → List NodeId}
  (hpush : ∀ pending new, (push pending new).Perm (pending ++ new))
include hpush

theorem leftover_eq_nil : leftover push g.children g.size [root] = [] := by
  rcases length_workOff push g.children g.size [root] with hlength | hnil
  · have hsubset : workOff push g.children g.size [root] ++
        leftover push g.children g.size [root] ⊆ List.range g.size := by
      intro n hn
      refine List.mem_range.2 ?_
      rcases List.mem_append.1 ((workOff_balance g.children hpush g.size [root]).mem_iff.1 hn)
        with hn | hn
      · exact List.mem_singleton.1 hn ▸ h.root_lt
      · obtain ⟨m, -, hm⟩ := List.mem_flatMap.1 hn
        exact h.bounded m n hm
    have hle := (h.branching.nodup_workOff hpush g.size).length_le_of_subset hsubset
    rw [List.length_append, hlength, List.length_range] at hle
    exact List.length_eq_zero_iff.1 (by omega)
  · exact hnil

theorem enumerates_workOff : g.Enumerates root (workOff push g.children g.size [root]) where
  nodup := (h.branching.nodup_workOff hpush g.size).sublist (List.sublist_append_left _ _)
  mem_iff n := by
    constructor
    · intro hn
      obtain ⟨start, hstart, hreach⟩ := reaches_of_mem hpush hn
      rw [List.mem_singleton] at hstart
      exact hstart ▸ hreach
    · exact mem_of_reaches hpush (h.leftover_eq_nil hpush) (List.mem_singleton_self root)
  parent_first before n after hsplit hne := by
    obtain ⟨m, hm, hn⟩ := earlier_of_mem hpush hsplit hne
    exact ⟨m, hm, h.parent m n hn⟩

end Order

theorem enumerates_traverseTree : g.Enumerates root (g.traverseTree root) := by
  rw [traverseTree, traverse, visit_eq_workOff]
  exact h.enumerates_workOff fun _ _ => .refl _

theorem traverse_ends {limit : Nat} (hlimit : g.size ≤ limit) :
    g.traverse root limit = g.traverseTree root := by
  simp only [traverseTree, traverse, visit_eq_workOff]
  exact workOff_of_leftover_nil hlimit (h.leftover_eq_nil fun _ _ => .refl _)

theorem enumerates_descend :
    g.Enumerates root ((g.descend g.size [(root, 0)]).map Prod.fst) := by
  rw [(g.descend_nodes g.size [(root, 0)]).1]
  exact h.enumerates_workOff fun _ _ => List.perm_append_comm

theorem descend_perm :
    ((g.descend g.size [(root, 0)]).map Prod.fst).Perm (g.traverseTree root) := by
  have hd := h.enumerates_descend
  have ht := h.enumerates_traverseTree
  exact (List.perm_ext_iff_of_nodup hd.nodup ht.nodup).2 fun n =>
    (hd.mem_iff n).trans (ht.mem_iff n).symm

theorem descend_ends {limit : Nat} (hlimit : g.size ≤ limit) :
    g.descend limit [(root, 0)] = g.descend g.size [(root, 0)] := by
  have hnodes := (g.descend_nodes g.size [(root, 0)]).2.trans
    (h.leftover_eq_nil fun _ _ => List.perm_append_comm)
  exact workOff_of_leftover_nil hlimit (List.map_eq_nil_iff.1 hnodes)

end WellLinked

end SpanForest.Graph
