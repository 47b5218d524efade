import Mathlib.Data.Set.Function
import SpanForest.Proofs.Tree.Determined
import SpanForest.Proofs.Tree.Unmerged

/-!
Registrations in another order. If no two have one key and at most one is without a parent, what is
built has one shape, also where parents are missing, form cycles or have shared sides, and where
there is no root: the nodes of the two trees correspond in key, value and parent, and only siblings
may be in another order.
-/

namespace SpanForest

open Registered

theorem eq_of_perm_of_length_le_one {α : Type} {l l' : List α} (h : l.Perm l') (hl : l.length ≤ 1) :
    l = l' := by
  match l, hl with
  | [], _ => exact h.nil_eq
  | [a], _ => exact (List.perm_singleton.1 h.symm).symm

variable {I V : Type} [BEq I]

namespace Registered

structure Rearranged (rs rs' : List (Registration I V)) : Prop where
  rootKey : rootKey? rs = rootKey? rs'
  keys : (hangingKeys rs).Perm (hangingKeys rs')
  values : ∀ k, valuesAt rs k = valuesAt rs' k
  support : support rs = support rs'

theorem Rearranged.symm {rs rs' : List (Registration I V)} (h : Rearranged rs rs') :
    Rearranged rs' rs :=
  ⟨h.rootKey.symm, h.keys.symm, fun k => (h.values k).symm, h.support.symm⟩

section

variable [LawfulBEq I] {rs rs' : List (Registration I V)} (order : rs.Perm rs')
include order

omit [LawfulBEq I] in
theorem has_eq_of_perm (k : Key I) : has rs k = has rs' k := order.any_eq

omit [BEq I] [LawfulBEq I] in
theorem rootKey?_eq_of_perm (single : rs.countP Registration.isHeadless ≤ 1) :
    rootKey? rs = rootKey? rs' := by
  have heads := order.filter Registration.isHeadless
  rw [List.countP_eq_length_filter] at single
  rw [rootKey?, rootKey?, ← List.head?_filter, ← List.head?_filter,
    eq_of_perm_of_length_le_one heads single]

theorem under_eq_of_perm (distinct : (rs.map Registration.key).Nodup) (k : Key I) :
    under rs k = under rs' k := by
  refine eq_of_perm_of_length_le_one (order.filter _) ?_
  by_cases hk : ∃ r ∈ rs, r.key = k
  · obtain ⟨r, hr, rfl⟩ := hk
    rw [under, filter_key_eq distinct hr, List.length_singleton]
  · have hnone : under rs k = [] :=
      List.filter_eq_nil_iff.2 fun r hr hkey => hk ⟨r, hr, eq_of_beq hkey⟩
    rw [hnone]
    exact Nat.zero_le 1

theorem rearranged_of_perm (distinct : (rs.map Registration.key).Nodup)
    (single : rs.countP Registration.isHeadless ≤ 1) : Rearranged rs rs' where
  rootKey := rootKey?_eq_of_perm order single
  keys := by
    refine (List.perm_ext_iff_of_nodup (nodup_hangingKeys rs) (nodup_hangingKeys rs')).2 fun k => ?_
    rw [mem_hangingKeys, mem_hangingKeys, has_eq_of_perm order, rootKey?_eq_of_perm order single]
  values k := congrArg (List.map Registration.value) (under_eq_of_perm order distinct k)
  support := by
    funext root node k
    simp only [support, decidedParent, under_eq_of_perm order distinct, has_eq_of_perm order,
      rootKey?_eq_of_perm order single]

end

end Registered

namespace Builder

/-- What two roots reach is the same but for the order of siblings: `twin` takes the nodes of one to
those of the other. -/
structure SameShape (b b' : Builder I V) (root root' : NodeId) (twin : NodeId → NodeId) : Prop where
  top : twin root = root'
  reached : Set.BijOn twin {n | b.graph.Reaches root n} {n | b'.graph.Reaches root' n}
  key : ∀ n, b.graph.Reaches root n → ∀ k, b.Holds k n ↔ b'.Holds k (twin n)
  value : ∀ n, b.graph.Reaches root n → b'.graph.value (twin n) = b.graph.value n
  parent : ∀ n, b.graph.Reaches root n → b'.graph.parent (twin n) = (b.graph.parent n).map twin
  children : ∀ n, b.graph.Reaches root n →
    (b'.graph.children (twin n)).Perm ((b.graph.children n).map twin)

/-- A key has one node, and each reached node is that of one key, but for a root that stands in. -/
structure Keyed (b : Builder I V) (root : NodeId) : Prop where
  once : ∀ k m n, b.Holds k m → b.Holds k n → m = n
  keyed : ∀ n, b.graph.Reaches root n →
    (∃ k, ∀ l, b.Holds l n ↔ l = k) ∨ n = root ∧ b.rootKey = none

/-- The second node of the key that has a node as its first, and the second root for the first. -/
def twin (rs : List (Registration I V)) (node node' : Key I → NodeId) (root' n : NodeId) : NodeId :=
  (((hangingKeys rs).find? fun k => node k = n).map node').getD root'

namespace Determined

variable {merge : V → V → V} {rs rs' : List (Registration I V)} {b b' : Builder I V}
  {root root' : NodeId} {node node' : Key I → NodeId} (h : Determined merge rs b root node)
include h

theorem node_ne_root {k : Key I} (hk : k ∈ hangingKeys rs) : node k ≠ root := fun heq =>
  (List.nodup_cons.1 h.apart).1 (heq ▸ List.mem_map_of_mem hk)

theorem node_injective {k l : Key I} (hk : k ∈ hangingKeys rs) (hl : l ∈ hangingKeys rs)
    (heq : node k = node l) : k = l :=
  List.inj_on_of_nodup_map (List.nodup_cons.1 h.apart).2 hk hl heq

theorem parent_root : b.graph.parent root = none :=
  h.unlinked root (List.nodup_cons.1 h.apart).1

theorem holds_root_iff {k : Key I} : b.Holds k root ↔ rootKey? rs = some k := by
  rw [h.holds]
  constructor
  · rintro (⟨hk, -⟩ | ⟨hk, heq⟩)
    · exact hk
    · exact absurd heq.symm (h.node_ne_root hk)
  · exact fun hk => .inl ⟨hk, rfl⟩

theorem holds_node_iff {k l : Key I} (hl : l ∈ hangingKeys rs) : b.Holds k (node l) ↔ k = l := by
  rw [h.holds]
  constructor
  · rintro (⟨-, heq⟩ | ⟨hk, heq⟩)
    · exact absurd heq (h.node_ne_root hl)
    · exact h.node_injective hk hl heq.symm
  · rintro rfl
    exact .inr ⟨hl, rfl⟩

theorem twin_root : twin rs node node' root' root = root' := by
  have hnone : (hangingKeys rs).find? (fun k => node k = root) = none := by
    rw [List.find?_eq_none]
    intro k hk
    simpa using h.node_ne_root hk
  rw [twin, hnone, Option.map_none, Option.getD_none]

theorem twin_node {k : Key I} (hk : k ∈ hangingKeys rs) :
    twin rs node node' root' (node k) = node' k := by
  have hsome : ((hangingKeys rs).find? fun l => node l = node k).isSome :=
    List.find?_isSome.2 ⟨k, hk, by simp⟩
  obtain ⟨l, hl⟩ := Option.isSome_iff_exists.1 hsome
  have heq : l = k :=
    h.node_injective (List.mem_of_find?_eq_some hl) hk (by simpa using List.find?_some hl)
  rw [twin, hl, heq, Option.map_some, Option.getD_some]

variable [LawfulBEq I]

theorem keyed : Keyed b root where
  once k m n hm hn := by
    rw [h.holds, mem_hangingKeys] at hm hn
    rcases hm with ⟨hk, rfl⟩ | ⟨⟨-, hk⟩, rfl⟩
    · exact (hn.resolve_right fun hn => hn.1.2 hk).2.symm
    · exact (hn.resolve_left fun hn => hk hn.1).2.symm
  keyed n hn := by
    obtain rfl | ⟨k, hk, rfl⟩ := h.reaches_cases hn
    · cases hroot : rootKey? rs with
      | none => exact .inr ⟨rfl, h.rootKey.trans hroot⟩
      | some k => exact .inl ⟨k, fun l => by rw [h.holds_root_iff, hroot, Option.some_inj, eq_comm]⟩
    · exact .inl ⟨k, fun l => h.holds_node_iff hk⟩

theorem twin_support (k : Key I) :
    twin rs node node' root' (support rs root node k) = support rs root' node' k := by
  obtain ⟨q, hq, hnode⟩ | hroot := support_cases rs k
  · rw [hnode, hnode, h.twin_node hq]
  · rw [hroot, hroot, h.twin_root]

variable (h' : Determined merge rs' b' root' node') (same : Rearranged rs rs')
include h' same

theorem reaches_twin {n : NodeId} (hn : b.graph.Reaches root n) :
    b'.graph.Reaches root' (twin rs node node' root' n) := by
  induction hn with
  | refl =>
      rw [h.twin_root]
      exact .refl
  | tail _ hstep ih =>
      obtain ⟨k, hk, rfl, rfl⟩ := h.mem_children_iff.1 hstep
      rw [h.twin_support] at ih
      rw [h.twin_node hk]
      exact ih.tail (h'.mem_children_iff.2 ⟨k, same.keys.mem_iff.1 hk, by rw [same.support], rfl⟩)

omit [LawfulBEq I] in
theorem twin_twin {n : NodeId} (hn : n = root ∨ ∃ k ∈ hangingKeys rs, node k = n) :
    twin rs' node' node root (twin rs node node' root' n) = n := by
  obtain rfl | ⟨k, hk, rfl⟩ := hn
  · rw [h.twin_root, h'.twin_root]
  · rw [h.twin_node hk, h'.twin_node (same.keys.mem_iff.1 hk)]

theorem bijOn_twin : Set.BijOn (twin rs node node' root') {n | b.graph.Reaches root n}
    {n | b'.graph.Reaches root' n} := by
  refine ⟨fun n hn => h.reaches_twin h' same hn, fun m hm n hn heq => ?_, fun n hn => ?_⟩
  · rw [← h.twin_twin h' same (h.reaches_cases hm), heq, h.twin_twin h' same (h.reaches_cases hn)]
  · exact ⟨_, h'.reaches_twin h same.symm hn, h'.twin_twin h same.symm (h'.reaches_cases hn)⟩

theorem children_twin {n : NodeId} (hn : b.graph.Reaches root n) :
    (b'.graph.children (twin rs node node' root' n)).Perm
      ((b.graph.children n).map (twin rs node node' root')) := by
  have hsupport (k : Key I) : support rs' root' node' k = twin rs node node' root' n ↔
      support rs root node k = n := by
    have hplaced : support rs root node k = root ∨
        ∃ l ∈ hangingKeys rs, node l = support rs root node k :=
      (support_cases rs k).symm.imp (fun hroot => hroot root node)
        fun ⟨q, hq, hnode⟩ => ⟨q, hq, (hnode root node).symm⟩
    rw [← same.support, ← h.twin_support k]
    refine ⟨fun heq => ?_, congrArg _⟩
    rw [← h.twin_twin h' same hplaced, heq, h.twin_twin h' same (h.reaches_cases hn)]
  rw [h.children n, h'.children, List.map_map]
  have hnodes : ((hangingKeys rs).filter fun k => support rs root node k = n).map
      (twin rs node node' root' ∘ node) =
        ((hangingKeys rs).filter fun k => support rs root node k = n).map node' :=
    List.map_congr_left fun k hk => h.twin_node (List.mem_filter.1 hk).1
  simp only [hsupport, hnodes]
  exact ((same.keys.filter _).map node').symm

theorem sameShape : SameShape b b' root root' (twin rs node node' root') where
  top := h.twin_root
  reached := h.bijOn_twin h' same
  key n hn k := by
    obtain rfl | ⟨l, hl, rfl⟩ := h.reaches_cases hn
    · rw [h.twin_root, h.holds_root_iff, h'.holds_root_iff, same.rootKey]
    · rw [h.twin_node hl, h.holds_node_iff hl, h'.holds_node_iff (same.keys.mem_iff.1 hl)]
  value n hn := by
    obtain rfl | ⟨k, hk, rfl⟩ := h.reaches_cases hn
    · rw [h.twin_root, h.rootValue, h'.rootValue, same.rootKey]
      exact Option.bind_congr fun k _ => by rw [same.values]
    · rw [h.twin_node hk, h.value k hk, h'.value k (same.keys.mem_iff.1 hk), same.values]
  parent n hn := by
    obtain rfl | ⟨k, hk, rfl⟩ := h.reaches_cases hn
    · rw [h.twin_root, h.parent_root, h'.parent_root, Option.map_none]
    · rw [h.twin_node hk, h.parent k hk, h'.parent k (same.keys.mem_iff.1 hk), Option.map_some,
        h.twin_support, same.support]
  children n hn := h.children_twin h' same hn

end Determined

variable [LawfulBEq I] {policy : Policy I V}

/-- The order of registrations does not tell in the shape of what is built from them. -/
theorem build_reordered (keyable : ∀ i, policy.checkKey i = .ok ()) {calls calls' : List (Call I V)}
    (order : (Call.accepted calls).Perm (Call.accepted calls'))
    (distinct : ((Call.accepted calls).map Registration.key).Nodup)
    (single : (Call.accepted calls).countP Registration.isHeadless ≤ 1)
    (history history' : Delivery) :
    ∃ root after root' after' twin,
      (build policy).run.run (Call.makeAll policy calls ⟨{}, history⟩) = (.ok root, after) ∧
        (build policy).run.run (Call.makeAll policy calls' ⟨{}, history'⟩) = (.ok root', after') ∧
        Keyed after.builder root ∧ Keyed after'.builder root' ∧
        SameShape after.builder after'.builder root root' twin := by
  have distinct' : ((Call.accepted calls').map Registration.key).Nodup :=
    (order.map Registration.key).nodup_iff.1 distinct
  obtain ⟨root, b, d, hready, hrun⟩ := Call.run_build_makeAll_distinct keyable distinct history
  obtain ⟨root', b', d', hready', hrun'⟩ :=
    Call.run_build_makeAll_distinct keyable distinct' history'
  have hdetermined := hready.determined (loneRoot_of_nodup distinct)
  have hdetermined' := hready'.determined (loneRoot_of_nodup distinct')
  exact ⟨root, _, root', _, _, hrun, hrun', hdetermined.keyed, hdetermined'.keyed,
    hdetermined.sameShape hdetermined' (rearranged_of_perm order distinct single)⟩

def malformedCalls : List (Call String Nat) :=
  [⟨some "b", some "a", none, some 1⟩, ⟨some "a", some "b", none, some 2⟩,
    ⟨some "x", some "y", none, some 3⟩, ⟨some "gone", some "x", none, some 4⟩,
    ⟨none, some "r", none, some 5⟩, ⟨some "a", some "x", some true, some 6⟩,
    ⟨some "y", some "y", none, some 7⟩]

theorem build_reordered_malformed :
    (∀ i, (Policy.quiet (I := String) Nat.add).checkKey i = .ok ()) ∧
      (Call.accepted malformedCalls).Perm (Call.accepted malformedCalls.reverse) ∧
      ((Call.accepted malformedCalls).map Registration.key).Nodup ∧
      (Call.accepted malformedCalls).countP Registration.isHeadless ≤ 1 ∧
      ∃ root after root' after' twin,
        (build (Policy.quiet Nat.add)).run.run
            (Call.makeAll (Policy.quiet Nat.add) malformedCalls ⟨{}, .empty⟩) = (.ok root, after) ∧
          (build (Policy.quiet Nat.add)).run.run
            (Call.makeAll (Policy.quiet Nat.add) malformedCalls.reverse ⟨{}, .empty⟩) =
              (.ok root', after') ∧
          Keyed after.builder root ∧ Keyed after'.builder root' ∧
          SameShape after.builder after'.builder root root' twin := by
  have keyable : ∀ i, (Policy.quiet (I := String) Nat.add).checkKey i = .ok () := fun _ => rfl
  have order : (Call.accepted malformedCalls).Perm (Call.accepted malformedCalls.reverse) :=
    (List.reverse_perm malformedCalls).symm.filterMap Call.accepted?
  have distinct : ((Call.accepted malformedCalls).map Registration.key).Nodup :=
    List.Nodup.of_map (fun k => (k.id, k.shared)) (by decide)
  have single : (Call.accepted malformedCalls).countP Registration.isHeadless ≤ 1 := by decide
  exact ⟨keyable, order, distinct, single,
    build_reordered keyable order distinct single .empty .empty⟩

end Builder

end SpanForest
