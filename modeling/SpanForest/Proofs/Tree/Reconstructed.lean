import SpanForest.Proofs.Tree.Determined
import SpanForest.Proofs.Tree.TwoSided
import SpanForest.Proofs.Tree.Unmerged

/-!
A tree whose ids may have two sides, registered by calls in any order, is built as it is: one node
for each call, and each where the tree has its side. No value is merged, so any policy will do. Not
covered: the order of the children of a node.
-/

namespace SpanForest

open Registered

variable {I V : Type}

namespace Tree

variable {t : Tree (Sides I V)}

section

variable {rs : List (Registration I V)} (order : rs.Perm (t.placements.map Placement.registration))
include order

theorem exists_placement {r : Registration I V} (hr : r ∈ rs) :
    ∃ p ∈ t.placements, p.registration = r :=
  List.mem_map.1 (order.mem_iff.1 hr)

theorem registration_mem {p : Placement I V} (hp : p ∈ t.placements) : p.registration ∈ rs :=
  order.mem_iff.2 (List.mem_map_of_mem hp)

theorem rootKey?_placements : rootKey? rs = some t.value.plainKey := by
  have hroot := registration_mem order (plainSide_mem_placements (root_mem_places none t))
  refine rootKey?_eq_some ⟨_, hroot, rfl⟩ fun r hr headless => ?_
  obtain ⟨p, hp, rfl⟩ := exists_placement order hr
  rw [isHeadless_placement hp, Option.isNone_iff_eq_none, above_eq_none_iff hp] at headless
  rw [headless]
  rfl

variable (distinct : t.ids.Nodup)

include distinct in
theorem nodup_keys_of_perm : (rs.map Registration.key).Nodup := by
  have hkeys := order.map Registration.key
  rw [List.map_map] at hkeys
  exact hkeys.nodup_iff.2 (nodup_keys_placements distinct)

variable [BEq I] [LawfulBEq I]

theorem has_placement {p : Placement I V} (hp : p ∈ t.placements) : has rs p.key = true :=
  has_iff.2 (List.mem_map_of_mem (registration_mem order hp))

theorem has_iff_placement {k : Key I} : has rs k = true ↔ ∃ p ∈ t.placements, p.key = k := by
  rw [has_iff, (order.map Registration.key).mem_iff, List.map_map]
  exact List.mem_map

include distinct

theorem has_shared {place : Option (Key I) × Sides I V} (hplace : place ∈ t.places none) :
    has rs ⟨place.2.id, true⟩ = place.2.shared.isSome := by
  rw [Bool.eq_iff_iff, has_iff_placement order]
  constructor
  · rintro ⟨p, hp, hkey⟩
    obtain ⟨above, s, hs, rfl | ⟨side, hside, rfl⟩⟩ := mem_placements.1 hp
    · exact absurd (congrArg Key.shared hkey) Bool.false_ne_true
    · rw [← eq_of_id_eq distinct hs hplace (congrArg Key.id hkey), hside]
      rfl
  · intro hsome
    obtain ⟨side, hside⟩ := Option.isSome_iff_exists.1 hsome
    exact ⟨_, sharedSide_mem_placements hplace hside, rfl⟩

theorem resolvedParent_placement {p : Placement I V} (hp : p ∈ t.placements) :
    resolvedParent rs p.key = p.above := by
  have hparent := resolvedParent_eq (nodup_keys_of_perm order distinct) (registration_mem order hp)
  refine hparent.trans ?_
  obtain ⟨above, s, hs, rfl | ⟨side, -, rfl⟩⟩ := mem_placements.1 hp
  · obtain hroot | ⟨parent, habove, hsub⟩ := eq_root_or_below hs
    · rw [(Prod.mk.inj hroot).1]
      rfl
    · have hmem : parent ∈ t.places none := hsub.subset List.mem_cons_self
      have hshared := has_shared order distinct hmem
      dsimp only at habove
      subst habove
      cases h : parent.2.shared.isSome <;>
        simp [preferred, Registration.plainParent, Sides.plainSide, Sides.innerKey, hshared, h,
          Option.filter_some]
  · rfl

end

/-- What is reached in `g` from `root` is `t`: each side of an id has a node of its own, with its
value, which is a child of the node above it, and nothing else is reached. -/
structure Reconstructs (t : Tree (Sides I V)) (g : Graph V) (root : NodeId) (node : Key I → NodeId) :
    Prop where
  top : node t.value.plainKey = root
  reached : ∀ n, g.Reaches root n ↔ ∃ p ∈ t.placements, node p.key = n
  apart : ∀ p ∈ t.placements, ∀ q ∈ t.placements, node p.key = node q.key → p = q
  value : ∀ p ∈ t.placements, g.value (node p.key) = some p.registration.value
  parent : ∀ p ∈ t.placements, g.parent (node p.key) = p.above.map node
  child : ∀ p ∈ t.placements, ∀ k ∈ p.above, node p.key ∈ g.children (node k)

end Tree

namespace Builder

variable [BEq I] [LawfulBEq I]

namespace Ready

variable {merge : V → V → V} {rs : List (Registration I V)} {b : Builder I V} {root : NodeId}
  (h : Ready merge rs b root) {t : Tree (Sides I V)}
  (order : rs.Perm (t.placements.map Placement.registration)) (distinct : t.ids.Nodup)
include h order distinct

theorem nodeAbove_top : b.nodeAbove root (some t.value.plainKey) = root :=
  h.nodeAbove_root (loneRoot_of_nodup (Tree.nodup_keys_of_perm order distinct))
    (Tree.rootKey?_placements order)

theorem placement_mem_children {p : Placement I V} (hp : p ∈ t.placements) {k : Key I}
    (hk : p.above = some k) : b.nodeAbove root (some p.key) ∈
      (b.graph.attachAll (b.links root)).children (b.nodeAbove root (some k)) := by
  have hne : rootKey? rs ≠ some p.key := by
    rw [Tree.rootKey?_placements order]
    intro hkey
    have hnone := Tree.above_eq_none_of_key distinct hp (Option.some.inj hkey).symm
    exact Option.some_ne_none k (hk.symm.trans hnone)
  have hhas := Tree.has_placement order hp
  refine h.mem_children.2 ⟨p.key, hhas, hne, h.find?_of_ne hhas hne, ?_⟩
  rw [Tree.resolvedParent_placement order distinct hp, hk]

theorem reaches_plain {place : Option (Key I) × Sides I V} (hplace : place ∈ t.places none) :
    (b.graph.attachAll (b.links root)).Reaches root (b.nodeAbove root (some place.2.plainKey)) := by
  refine Tree.places_induction (P := fun place => (b.graph.attachAll (b.links root)).Reaches root
    (b.nodeAbove root (some place.2.plainKey))) none t ?_ ?_ place hplace
  · rw [h.nodeAbove_top order distinct]
    exact .refl
  · intro place s hreach hsub
    have hplace : place ∈ t.places none := hsub.subset List.mem_cons_self
    have hs : (some place.2.innerKey, s) ∈ t.places none :=
      hsub.subset (List.mem_cons_of_mem _ List.mem_cons_self)
    have inner : (b.graph.attachAll (b.links root)).Reaches root
        (b.nodeAbove root (some place.2.innerKey)) := by
      rw [Sides.innerKey]
      cases hside : place.2.shared with
      | none => exact hreach
      | some side =>
          have hshared := Tree.sharedSide_mem_placements hplace hside
          exact hreach.tail (h.placement_mem_children order distinct hshared rfl)
    have hplain := Tree.plainSide_mem_placements hs
    exact inner.tail (h.placement_mem_children order distinct hplain rfl)

theorem reaches_placement {p : Placement I V} (hp : p ∈ t.placements) :
    (b.graph.attachAll (b.links root)).Reaches root (b.nodeAbove root (some p.key)) := by
  obtain ⟨above, s, hs, rfl | ⟨side, -, rfl⟩⟩ := Tree.mem_placements.1 hp
  · exact h.reaches_plain order distinct hs
  · exact (h.reaches_plain order distinct hs).tail (h.placement_mem_children order distinct hp rfl)

theorem reconstructs :
    t.Reconstructs (b.graph.attachAll (b.links root)) root fun k => b.nodeAbove root (some k) := by
  have lone := loneRoot_of_nodup (Tree.nodup_keys_of_perm order distinct)
  have htop := h.nodeAbove_top order distinct
  refine ⟨htop, fun n => ⟨fun hn => ?_, ?_⟩, fun p hp q hq heq => ?_, fun p hp => ?_, fun p hp => ?_,
    fun p hp k hk => h.placement_mem_children order distinct hp hk⟩
  · obtain rfl | ⟨k, hk, rfl⟩ := (h.determined lone).reaches_cases hn
    · exact ⟨_, Tree.plainSide_mem_placements (Tree.root_mem_places none t), htop⟩
    · obtain ⟨p, hp, rfl⟩ := (Tree.has_iff_placement order).1 (mem_hangingKeys.1 hk).1
      exact ⟨p, hp, rfl⟩
  · rintro ⟨p, hp, rfl⟩
    exact h.reaches_placement order distinct hp
  · have hkey := h.nodeAbove_injective lone (Tree.has_placement order hp)
      (Tree.has_placement order hq) heq
    exact List.inj_on_of_nodup_map (Tree.nodup_keys_placements distinct) hp hq hkey
  · rw [Graph.value_attachAll, h.value_nodeAbove lone (Tree.has_placement order hp)]
    have hvalues :=
      valuesAt_eq (Tree.nodup_keys_of_perm order distinct) (Tree.registration_mem order hp)
    exact congrArg (foldValues merge) hvalues
  · cases hk : p.above with
    | none =>
        rw [(Tree.above_eq_none_iff hp).1 hk]
        exact (congrArg _ htop).trans h.wellLinked.root_parent
    | some k => exact h.wellLinked.parent _ _ (h.placement_mem_children order distinct hp hk)

end Ready

/-- A tree whose ids may have two sides comes out as it is, whatever the order of its calls and
whatever the policy does with values and with what it is told. -/
theorem build_reconstructs {policy : Policy I V} (keyable : ∀ i, policy.checkKey i = .ok ())
    (t : Tree (Sides I V)) (distinct : t.ids.Nodup) {calls : List (Call I V)}
    (order : calls.Perm t.calls) (history : Delivery) :
    ∃ root after node,
      (build policy).run.run (Call.makeAll policy calls ⟨{}, history⟩) = (.ok root, after) ∧
        after.builder.graph.WalksAsTree root ∧
        t.Reconstructs after.builder.graph root node := by
  have horder : (Call.accepted calls).Perm (t.placements.map Placement.registration) := by
    rw [← Tree.accepted_calls distinct]
    exact order.filterMap Call.accepted?
  obtain ⟨root, b, d, hready, hrun⟩ := Call.run_build_makeAll_distinct keyable
    (Tree.nodup_keys_of_perm horder distinct) history
  exact ⟨root, _, _, hrun, hready.wellLinked.walksAsTree, hready.reconstructs horder distinct⟩

def rpcTree : Tree (Sides String Nat) :=
  .node ⟨"a", 1, none, some (some "x", 2), by decide, by decide⟩
    [.node ⟨"b", 3, some false, some (none, 4), by decide, by decide⟩
      [.node ⟨"c", 5, none, none, by decide, nofun⟩ []],
    .node ⟨"d", 6, none, none, by decide, nofun⟩ []]

def noMerging : Policy String Nat :=
  { Policy.quiet Nat.max with merge := fun _ _ => .error .missingValue, sink := .failing }

theorem build_reconstructs_rpcTree : (∀ i, noMerging.checkKey i = .ok ()) ∧ rpcTree.ids.Nodup ∧
    rpcTree.calls.reverse.Perm rpcTree.calls ∧
    ∃ root after node, (build noMerging).run.run
        (Call.makeAll noMerging rpcTree.calls.reverse ⟨{}, .empty⟩) = (.ok root, after) ∧
      after.builder.graph.WalksAsTree root ∧
      rpcTree.Reconstructs after.builder.graph root node := by
  have keyable : ∀ i, noMerging.checkKey i = .ok () := fun _ => rfl
  have distinct : rpcTree.ids.Nodup := by decide
  have order : rpcTree.calls.reverse.Perm rpcTree.calls := List.reverse_perm _
  exact ⟨keyable, distinct, order, build_reconstructs keyable rpcTree distinct order .empty⟩

end Builder

end SpanForest
