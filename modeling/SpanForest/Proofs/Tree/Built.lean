import SpanForest.Proofs.Tree.Absorbed
import SpanForest.Proofs.Tree.KnownParents

/-!
What building makes of the registrations that a builder was given: one node for the root and one for
each other key, each such node linked once, to the node of its resolved parent or else to the root.
Child links and parent links of the result agree.
-/

namespace SpanForest

open Registered

variable {I V : Type} [BEq I] {policy : Policy I V} {merge : V → V → V}

def Policy.MergesAlong (policy : Policy I V) (merge : V → V → V) :
    List (Registration I V) → List (Registration I V) → Prop
  | _, [] => True
  | done, r :: rest =>
      policy.MergesInto merge (foldValues merge (earlier done r)) r.value ∧
      policy.MergesAlong merge (done ++ [r]) rest

theorem Policy.MergesBy.mergesAlong (total : policy.MergesBy merge)
    (done rest : List (Registration I V)) : policy.MergesAlong merge done rest := by
  induction rest generalizing done with
  | nil => trivial
  | cons r rest ih => exact ⟨fun old _ => total.merge_eq old r.value, ih (done ++ [r])⟩

namespace Builder

/-- All nodes are made and none is linked. -/
structure Ready (merge : V → V → V) (rs : List (Registration I V)) (b : Builder I V)
    (root : NodeId) : Prop extends KeyNodes merge rs b where
  rootNode : b.rootNode = some root
  root_lt : root < b.graph.size
  rootValue : b.graph.value root = foldValues merge (rootValues rs)
  apart : ∀ k n, b.nodeOf.find? k = some n → n ≠ root
  parents : ParentsAfter rs rs b

def nodeAbove (b : Builder I V) (root : NodeId) (parent : Option (Key I)) : NodeId :=
  (parent.bind b.nodeOf.find?).getD root

def linkOf (b : Builder I V) (root : NodeId) (entry : Key I × Option (Key I)) :
    Option (NodeId × NodeId) :=
  if b.rootKey == some entry.1 then none
  else (b.nodeOf.find? entry.1).map fun n => (b.nodeAbove root entry.2, n)

def links (b : Builder I V) (root : NodeId) : List (NodeId × NodeId) :=
  b.parentOf.filterMap (b.linkOf root)

theorem run_linkAll (b : Builder I V) {root : NodeId} {t : Table (Key I) (Option (Key I))}
    (h : ∀ entry ∈ t, (b.rootKey == some entry.1) = false →
      ∃ n, b.nodeOf.find? entry.1 = some n ∧ n ≠ b.nodeAbove root entry.2)
    (d : Delivery) :
    (linkAll policy root t).run.run ⟨b, d⟩ =
      (.ok (), ⟨{ b with graph := b.graph.attachAll (t.filterMap (b.linkOf root)) }, d⟩) := by
  -- linking changes links only, so what is assumed of the later entries still holds after it
  induction t generalizing b with
  | nil => rfl
  | cons entry t ih =>
      obtain ⟨key, parent⟩ := entry
      have hrest := fun entry hentry => h entry (List.mem_cons_of_mem _ hentry)
      rw [linkAll]
      cases hroot : b.rootKey == some key with
      | true =>
          have hlink : (link policy root key parent).run.run ⟨b, d⟩ = (.ok (), ⟨b, d⟩) := by
            rw [link, run_bind_ok (Building.run_builder _)]
            dsimp only
            rw [if_pos hroot]
            rfl
          rw [run_bind_ok hlink, ih b hrest, List.filterMap_cons_none]
          simp [linkOf, hroot]
      | false =>
          obtain ⟨n, hn, hne⟩ := h (key, parent) List.mem_cons_self hroot
          have hof : b.linkOf root (key, parent) =
              some (b.nodeAbove root parent, n) := by simp [linkOf, hroot, hn]
          have hlink : (link policy root key parent).run.run ⟨b, d⟩ = (.ok (), ⟨{ b with
              graph := b.graph.attach (b.nodeAbove root parent) n }, d⟩) := by
            rw [link, run_bind_ok (Building.run_builder _)]
            dsimp only
            rw [if_neg (by simp [hroot]), hn]
            dsimp only
            have hadd : b.graph.addChild policy.quoteValue
                ((parent.bind b.nodeOf.find?).getD root) n =
                  .ok (b.graph.attach (b.nodeAbove root parent) n) := Graph.addChild_ok hne _
            rw [run_bind_ok (run_lift hadd _)]
            rfl
          rw [run_bind_ok hlink,
            ih { b with graph := b.graph.attach (b.nodeAbove root parent) n } hrest,
            List.filterMap_cons_some hof]
          rfl

theorem nodesAfter_entered (rs : List (Registration I V)) : NodesAfter merge [] (entered rs) := by
  rw [entered_eq]
  refine ⟨⟨fun n => ⟨rfl, rfl⟩, rfl, fun k => rfl, ?_, ?_⟩, rfl, ?_, ?_⟩
  · intro k n hn
    cases hn
  · intro k l n hn
    cases hn
  · intro n hn
    cases hn
  · intro k n hn
    cases hn

namespace Ready

variable {rs : List (Registration I V)} {b : Builder I V} {root : NodeId}
  (h : Ready merge rs b root)
include h

theorem find?_parentOf {k : Key I} (hne : rootKey? rs ≠ some k) :
    b.parentOf.find? k = if has rs k then some (resolvedParent rs k) else none :=
  h.parents.parent k hne

theorem nodeAbove_lt (parent : Option (Key I)) : b.nodeAbove root parent < b.graph.size := by
  rw [nodeAbove]
  cases hfind : parent.bind b.nodeOf.find? with
  | none => exact h.root_lt
  | some n =>
      obtain ⟨k, -, hn⟩ := Option.bind_eq_some_iff.1 hfind
      exact h.node_lt hn

theorem nodup_links : ((b.links root).map Prod.snd).Nodup := by
  have hmap : (b.links root).map Prod.snd = (Table.keys b.parentOf).filterMap fun k =>
      if b.rootKey == some k then none else b.nodeOf.find? k := by
    rw [links, List.map_filterMap, Table.keys, List.filterMap_map]
    refine List.filterMap_congr fun entry _ => ?_
    simp only [linkOf, Function.comp_apply]
    split
    · rfl
    · cases b.nodeOf.find? entry.1 <;> rfl
  rw [hmap]
  refine h.parents.nodup.filterMap fun k l n hk hl => ?_
  simp only [Option.mem_def] at hk hl
  split at hk
  · cases hk
  · split at hl
    · cases hl
    · exact h.injective k l n hk hl

variable [LawfulBEq I]

theorem mem_links {p n : NodeId} : (p, n) ∈ b.links root ↔
    ∃ k, has rs k = true ∧ rootKey? rs ≠ some k ∧ b.nodeOf.find? k = some n ∧
      p = b.nodeAbove root (resolvedParent rs k) := by
  rw [links, List.mem_filterMap]
  constructor
  · rintro ⟨⟨k, parent⟩, hmem, hlink⟩
    simp only [linkOf, h.rootKey] at hlink
    split at hlink
    · cases hlink
    · next hne =>
        rw [beq_iff_eq] at hne
        obtain ⟨n', hn, heq⟩ := Option.map_eq_some_iff.1 hlink
        obtain ⟨rfl, rfl⟩ := Prod.mk.inj heq
        have hfind := Table.find?_of_mem h.parents.nodup hmem
        rw [h.find?_parentOf hne] at hfind
        split at hfind
        · next hhas => exact ⟨k, hhas, hne, hn, by rw [Option.some.inj hfind]⟩
        · cases hfind
  · rintro ⟨k, hhas, hne, hn, rfl⟩
    have hfind := h.find?_parentOf hne
    rw [if_pos hhas] at hfind
    refine ⟨(k, resolvedParent rs k), Table.mem_of_find? hfind, ?_⟩
    simp [linkOf, h.rootKey, hne, hn]

theorem links_lt : ∀ link ∈ b.links root, link.1 < b.graph.size ∧ link.2 < b.graph.size := by
  rintro ⟨p, n⟩ hlink
  obtain ⟨k, -, -, hn, rfl⟩ := h.mem_links.1 hlink
  exact ⟨h.nodeAbove_lt _, h.node_lt hn⟩

theorem root_notMem_links : root ∉ (b.links root).map Prod.snd := by
  intro hroot
  obtain ⟨⟨p, n⟩, hlink, rfl⟩ := List.mem_map.1 hroot
  obtain ⟨k, -, -, hn, -⟩ := h.mem_links.1 hlink
  exact h.apart k n hn rfl

theorem wellLinked : (b.graph.attachAll (b.links root)).WellLinked root :=
  Graph.wellLinked_attachAll h.bare h.links_lt h.nodup_links h.root_lt h.root_notMem_links

theorem ne_nodeAbove (hself : ∀ r ∈ rs, r.parentId ≠ some r.id) {k : Key I} {n : NodeId}
    (hn : b.nodeOf.find? k = some n) : n ≠ b.nodeAbove root (resolvedParent rs k) := by
  rw [nodeAbove]
  cases hfind : (resolvedParent rs k).bind b.nodeOf.find? with
  | none => exact h.apart k n hn
  | some m =>
      rintro rfl
      obtain ⟨parent, hparent, hm⟩ := Option.bind_eq_some_iff.1 hfind
      rw [h.injective parent k _ hm hn] at hparent
      exact parentAfter_ne_self (fun _ hr => hr) hself k hparent

end Ready

variable [LawfulBEq I]

section

variable (keyable : ∀ i, policy.checkKey i = .ok ())
include keyable

theorem run_absorb_after {rs done : List (Registration I V)}
    {b : Builder I V} (hnodes : NodesAfter merge done b) (hparents : ParentsAfter rs done b)
    {r : Registration I V} (hr : r ∈ rs)
    (hmerge : policy.MergesInto merge (foldValues merge (earlier done r)) r.value) (d : Delivery) :
    ∃ after d', (absorb policy r).run.run ⟨b, d⟩ = (.ok (), ⟨after, d'⟩) ∧
      NodesAfter merge (done ++ [r]) after ∧ ParentsAfter rs (done ++ [r]) after := by
  rw [← hnodes.metBy_eq] at hmerge
  obtain ⟨after, d', hrun, hstep⟩ := run_absorb hnodes.valued hmerge keyable d
  refine ⟨after, d', hrun, ?_⟩
  cases hstep with
  | planted headless hroot =>
      have hnone : rootKey? done = none := by
        rw [← hnodes.rootKey, ← Option.isNone_iff_eq_none, ← Option.not_isSome,
          ← hnodes.rootNode, hroot]
        rfl
      exact ⟨hnodes.planted headless hroot, hparents.planted headless hnone⟩
  | joined headless hroot hkey hold =>
      have hsome : rootKey? done = some r.key := by rw [← hnodes.rootKey, eq_of_beq hkey]
      exact ⟨hnodes.joined headless hroot hkey hold, hparents.joined headless hsome _⟩
  | placed happart =>
      refine ⟨?_, hparents.placed hr
        (hnodes.rootKey?_append fun headless => (happart headless).1) _⟩
      rw [notePreferred_eq]
      exact (hnodes.placed happart).withParents _

theorem run_absorbAll {rs done : List (Registration I V)}
    {b : Builder I V} (hnodes : NodesAfter merge done b) (hparents : ParentsAfter rs done b)
    {rest : List (Registration I V)} (hrest : ∀ r ∈ rest, r ∈ rs)
    (along : policy.MergesAlong merge done rest) (d : Delivery) :
    ∃ after d', (absorbAll policy rest).run.run ⟨b, d⟩ = (.ok (), ⟨after, d'⟩) ∧
      NodesAfter merge (done ++ rest) after ∧ ParentsAfter rs (done ++ rest) after := by
  induction rest generalizing done b d with
  | nil => exact ⟨b, d, rfl, by rwa [List.append_nil], by rwa [List.append_nil]⟩
  | cons r rest ih =>
      obtain ⟨hmerge, along⟩ := along
      obtain ⟨next, d₁, hrun, hnodes', hparents'⟩ :=
        run_absorb_after keyable hnodes hparents (hrest r List.mem_cons_self) hmerge d
      obtain ⟨after, d₂, hall, hafter⟩ :=
        ih hnodes' hparents' (fun s hs => hrest s (List.mem_cons_of_mem _ hs)) along d₁
      rw [List.append_assoc] at hafter
      refine ⟨after, d₂, ?_, hafter⟩
      rw [absorbAll, run_bind_ok hrun, hall]

end

variable (policy) in
theorem run_ensureRoot {rs : List (Registration I V)} {b : Builder I V}
    (hnodes : NodesAfter merge rs b) (hparents : ParentsAfter rs rs b) (d : Delivery) :
    ∃ root after d', (ensureRoot policy).run.run ⟨b, d⟩ = (.ok root, ⟨after, d'⟩) ∧
      Ready merge rs after root := by
  rw [ensureRoot, run_bind_ok (Building.run_builder _)]
  dsimp only
  cases hroot : b.rootNode with
  | some root =>
      refine ⟨root, b, d, rfl, hnodes.toKeyNodes, hroot, hnodes.root_lt hroot,
        hnodes.rootValue root hroot, ?_, hparents⟩
      rintro k n hn rfl
      exact hnodes.apart k n hn hroot
  | none =>
      -- the node without a value comes last, so all others keep their numbers
      have hnone : rootKey? rs = none := by
        rw [← hnodes.rootKey, ← Option.isNone_iff_eq_none, ← Option.not_isSome, ← hnodes.rootNode, hroot]
        rfl
      have hvalue {k n} (hn : b.nodeOf.find? k = some n) :
          (b.graph.add none).value n = b.graph.value n := by
        rw [Graph.value_add, if_neg (Nat.ne_of_lt (hnodes.node_lt hn))]
      dsimp only
      rw [run_bind_ok (Building.run_report _ _ _ _),
        run_bind_ok (Building.run_setBuilder _ _)]
      refine ⟨_, _, _, rfl, ⟨hnodes.bare.add none, hnodes.rootKey, ?_, ?_, hnodes.injective⟩, rfl, ?_,
        ?_, ?_, ⟨hparents.nodup, hparents.keys_eq, hparents.parent⟩⟩
      · intro k
        rw [← hnodes.nodeValue k]
        exact Option.bind_congr fun n hn => hvalue hn
      · intro k n hn
        exact (congrArg Option.isSome (hvalue hn)).trans (hnodes.node_isSome k n hn)
      · rw [plantDummy, Graph.size_add]
        exact Nat.lt_succ_self _
      · rw [rootValues_eq_nil hnone]
        exact Graph.value_add_size _ _
      · intro k n hn
        exact Nat.ne_of_lt (hnodes.node_lt hn)

theorem run_build (keyable : ∀ i, policy.checkKey i = .ok ()) {rs : List (Registration I V)}
    (hself : ∀ r ∈ rs, r.parentId ≠ some r.id) (along : policy.MergesAlong merge [] rs)
    (d : Delivery) :
    ∃ root b d', Ready merge rs b root ∧
      (build policy).run.run ⟨entered rs, d⟩ =
        (.ok root, ⟨{ b with graph := b.graph.attachAll (b.links root) }, d'⟩) := by
  obtain ⟨absorbed, d₁, habsorb, hnodes, hparents⟩ := run_absorbAll keyable
    (nodesAfter_entered rs) (parentsAfter_entered rs) (fun _ hr => hr) along d
  rw [List.nil_append] at hnodes hparents
  obtain ⟨root, b, d₂, hroot, hready⟩ := run_ensureRoot policy hnodes hparents d₁
  have hlink : ∀ entry ∈ b.parentOf, (b.rootKey == some entry.1) = false →
      ∃ n, b.nodeOf.find? entry.1 = some n ∧ n ≠ b.nodeAbove root entry.2 := by
    rintro ⟨k, parent⟩ hmem hne
    rw [hready.rootKey, beq_eq_false_iff_ne] at hne
    have hfind := Table.find?_of_mem hready.parents.nodup hmem
    rw [hready.find?_parentOf hne] at hfind
    split at hfind
    · next hhas =>
        obtain ⟨n, hn⟩ := hready.exists_node hhas hne
        rw [← Option.some.inj hfind]
        exact ⟨n, hn, hready.ne_nodeAbove hself hn⟩
    · cases hfind
  refine ⟨root, b, d₂, hready, ?_⟩
  rw [build, run_bind_ok (Building.run_builder _)]
  dsimp only
  rw [entries_entered, run_bind_ok habsorb, run_bind_ok hroot,
    run_bind_ok (Building.run_builder _), run_bind_ok (run_linkAll b hlink d₂)]
  rfl

end Builder

end SpanForest
