import SpanForest.Proofs.Tree.Ancestors
import SpanForest.Proofs.Tree.Outlined

/-!
What is built, down to every link. If no registration under the root's key names a parent, the root
and each other registered key have one node; its value, what it hangs from and its place among its
siblings are told by the registrations alone. A registration that names a parent for the root makes
a second node of its key.
-/

namespace SpanForest

open Registered

variable {I V : Type} [BEq I]

namespace Registered

/-- No registration under the root's key names a parent. -/
def LoneRoot (rs : List (Registration I V)) : Prop :=
  ∀ r ∈ rs, rootKey? rs = some r.key → r.parentId = none

/-- The registered keys but the root's, in order of first registration. -/
def hangingKeys (rs : List (Registration I V)) : List (Key I) :=
  (rs.map Registration.key).eraseDups.filter fun k => !(rootKey? rs == some k)

theorem positions_eq (rs : List (Registration I V)) :
    positions rs = (hangingKeys rs).map fun k => (k, resolvedParent rs k) := rfl

def under (rs : List (Registration I V)) (k : Key I) : List (Registration I V) :=
  rs.filter fun r => r.key == k

/-- The parent of a registered key: its plain side for a shared one. For a plain one it is the shared
side of the last parent named under the key that has such a side, and if there is none the plain side
of the parent that the last registration under the key names. -/
def decidedParent (rs : List (Registration I V)) (k : Key I) : Option (Key I) :=
  if k.shared then some ⟨k.id, false⟩
  else
    match (((under rs k).filterMap Registration.parentId).filter
      fun p => has rs ⟨p, true⟩).getLast? with
    | some p => some ⟨p, true⟩
    | none => ((under rs k).getLast?.bind Registration.parentId).map fun p => ⟨p, false⟩

/-- Where the node of a key hangs: from that of its parent if this is another registered key than the
root's, and from the root otherwise. -/
def support (rs : List (Registration I V)) (root : NodeId) (node : Key I → NodeId) (k : Key I) :
    NodeId :=
  match decidedParent rs k with
  | some q => if has rs q && !(rootKey? rs == some q) then node q else root
  | none => root

variable [LawfulBEq I] {rs : List (Registration I V)}

instance (rs : List (Registration I V)) : Decidable (LoneRoot rs) :=
  decidable_of_iff (∀ r ∈ rs, (rootKey? rs == some r.key) = true → r.parentId.isNone = true) (by
    simp only [LoneRoot, beq_iff_eq, Option.isNone_iff_eq_none])

omit [BEq I] [LawfulBEq I] in
theorem loneRoot_of_nodup (distinct : (rs.map Registration.key).Nodup) : LoneRoot rs := by
  intro r hr hroot
  obtain ⟨-, s, hs, headless, hkey⟩ := rootKey?_plain hroot
  rw [← List.inj_on_of_nodup_map distinct hs hr hkey]
  exact (s.isHeadless_iff.1 headless).2

theorem mem_hangingKeys {k : Key I} :
    k ∈ hangingKeys rs ↔ has rs k = true ∧ rootKey? rs ≠ some k := by
  rw [hangingKeys, List.mem_filter, List.mem_eraseDups, ← has_iff, Bool.not_eq_true',
    beq_eq_false_iff_ne]

theorem support_cases (rs : List (Registration I V)) (k : Key I) :
    (∃ q ∈ hangingKeys rs, ∀ root node, support rs root node k = node q) ∨
      ∀ root node, support rs root node k = root := by
  unfold support
  cases decidedParent rs k with
  | none => exact .inr fun _ _ => rfl
  | some q =>
      dsimp only
      split
      · next hq =>
          rw [Bool.and_eq_true_iff, Bool.not_eq_true', beq_eq_false_iff_ne] at hq
          exact .inl ⟨q, mem_hangingKeys.2 hq, fun _ _ => rfl⟩
      · exact .inr fun _ _ => rfl

theorem nodup_hangingKeys (rs : List (Registration I V)) : (hangingKeys rs).Nodup := by
  rw [hangingKeys, ← Builder.keys_entered]
  exact (Builder.nodup_keys_entered rs).filter _

omit [LawfulBEq I] in
theorem under_ne_nil {k : Key I} (hk : has rs k = true) : under rs k ≠ [] := by
  obtain ⟨r, hr, hrk⟩ := List.any_eq_true.1 hk
  exact List.ne_nil_of_mem (List.mem_filter.2 ⟨hr, hrk⟩)

theorem key_of_mem_under {k : Key I} {r : Registration I V} (hr : r ∈ under rs k) : r.key = k :=
  eq_of_beq (List.mem_filter.1 hr).2

theorem filterMap_preferred_shared {k : Key I} (hshared : k.shared = true) :
    (under rs k).filterMap (preferred rs) = [] := by
  refine List.filterMap_eq_nil_iff.2 fun r hr => ?_
  rw [← key_of_mem_under hr] at hshared
  exact if_pos hshared

theorem filterMap_preferred_plain {k : Key I} (hplain : k.shared = false) :
    (under rs k).filterMap (preferred rs) =
      (((under rs k).filterMap Registration.parentId).filter fun p => has rs ⟨p, true⟩).map
        fun p => ⟨p, true⟩ := by
  rw [List.filter_filterMap, List.map_filterMap]
  refine List.filterMap_congr fun r hr => ?_
  have hr : r.shared = false := (congrArg Key.shared (key_of_mem_under hr)).trans hplain
  cases hp : r.parentId <;> simp [preferred, hr, hp, Option.filter_some]

theorem resolvedParent_eq_decidedParent {k : Key I} (hk : has rs k = true) :
    resolvedParent rs k = decidedParent rs k := by
  obtain ⟨r, hlast⟩ : ∃ r, (under rs k).getLast? = some r := by
    rw [← Option.isSome_iff_exists, List.getLast?_isSome]
    exact under_ne_nil hk
  have hkey : r.key = k := key_of_mem_under (List.mem_of_getLast? hlast)
  have hparent : resolvedParent rs k = match ((under rs k).filterMap (preferred rs)).getLast? with
      | some preferred => some preferred
      | none => ((under rs k).getLast?).bind Registration.plainParent := rfl
  rw [hparent, decidedParent, hlast, Option.bind_some, Option.bind_some, Registration.plainParent]
  cases hshared : k.shared with
  | true =>
      have hr : r.shared = true := (congrArg Key.shared hkey).trans hshared
      rw [filterMap_preferred_shared hshared, List.getLast?_nil, if_pos hr, if_pos rfl, ← hkey]
      rfl
  | false =>
      have hr : r.shared = false := (congrArg Key.shared hkey).trans hshared
      rw [filterMap_preferred_plain hshared, List.getLast?_map, hr, if_neg Bool.false_ne_true,
        if_neg Bool.false_ne_true]
      cases (((under rs k).filterMap Registration.parentId).filter
        fun p => has rs ⟨p, true⟩).getLast? <;> rfl

end Registered

namespace Builder

/-- A builder holds what registrations determine: the root, and a node for each other key. -/
structure Determined (merge : V → V → V) (rs : List (Registration I V)) (b : Builder I V)
    (root : NodeId) (node : Key I → NodeId) : Prop where
  rootKey : b.rootKey = rootKey? rs
  rootValue : b.graph.value root = (rootKey? rs).bind fun k => foldValues merge (valuesAt rs k)
  apart : (root :: (hangingKeys rs).map node).Nodup
  holds : ∀ k n, b.Holds k n ↔ rootKey? rs = some k ∧ n = root ∨ k ∈ hangingKeys rs ∧ n = node k
  value : ∀ k ∈ hangingKeys rs, b.graph.value (node k) = foldValues merge (valuesAt rs k)
  decided : ∀ k ∈ hangingKeys rs, b.parentOf.find? k = some (decidedParent rs k)
  parent : ∀ k ∈ hangingKeys rs, b.graph.parent (node k) = some (support rs root node k)
  unlinked : ∀ n ∉ (hangingKeys rs).map node, b.graph.parent n = none
  children : ∀ n, b.graph.children n =
    ((hangingKeys rs).filter fun k => support rs root node k = n).map node

variable {policy : Policy I V} {merge : V → V → V}

theorem Determined.mem_children_iff {rs : List (Registration I V)} {b : Builder I V} {root : NodeId}
    {node : Key I → NodeId} (h : Determined merge rs b root node) {m n : NodeId} :
    n ∈ b.graph.children m ↔ ∃ k ∈ hangingKeys rs, support rs root node k = m ∧ node k = n := by
  rw [h.children m]
  simp only [List.mem_map, List.mem_filter, decide_eq_true_eq, and_assoc]

theorem Determined.reaches_cases {rs : List (Registration I V)} {b : Builder I V} {root : NodeId}
    {node : Key I → NodeId} (h : Determined merge rs b root node) {n : NodeId}
    (hn : b.graph.Reaches root n) : n = root ∨ ∃ k ∈ hangingKeys rs, node k = n := by
  cases hn with
  | refl => exact .inl rfl
  | tail _ hstep =>
      obtain ⟨k, hk, -, rfl⟩ := h.mem_children_iff.1 hstep
      exact .inr ⟨k, hk, rfl⟩

namespace Ready

variable [LawfulBEq I] {rs : List (Registration I V)} {b : Builder I V} {root : NodeId}
  (h : Ready merge rs b root)
include h

theorem find?_of_ne {k : Key I} (hk : has rs k = true) (hne : rootKey? rs ≠ some k) :
    b.nodeOf.find? k = some (b.nodeAbove root (some k)) := by
  obtain ⟨n, hn⟩ := h.exists_node hk hne
  rw [nodeAbove, Option.bind_some, hn, Option.getD_some]

variable (lone : LoneRoot rs)
include lone

theorem find?_root {k : Key I} (hroot : rootKey? rs = some k) : b.nodeOf.find? k = none := by
  cases hfind : b.nodeOf.find? k with
  | none => rfl
  | some n =>
      obtain ⟨r, hr, rfl, hparent⟩ := (h.exists_stray hroot).1 ⟨n, hfind⟩
      exact absurd (lone r hr hroot) hparent

theorem find?_eq_some_iff {k : Key I} {n : NodeId} :
    b.nodeOf.find? k = some n ↔ k ∈ hangingKeys rs ∧ n = b.nodeAbove root (some k) := by
  rw [mem_hangingKeys]
  constructor
  · intro hn
    have hne : rootKey? rs ≠ some k := fun hroot =>
      Option.some_ne_none n (hn.symm.trans (h.find?_root lone hroot))
    have hk := h.has_of_find? hn
    exact ⟨⟨hk, hne⟩, Option.some.inj (hn.symm.trans (h.find?_of_ne hk hne))⟩
  · rintro ⟨⟨hk, hne⟩, rfl⟩
    exact h.find?_of_ne hk hne

theorem nodeAbove_root {k : Key I} (hroot : rootKey? rs = some k) :
    b.nodeAbove root (some k) = root := by
  rw [nodeAbove, Option.bind_some, h.find?_root lone hroot, Option.getD_none]

theorem rootValue_eq : b.graph.value root =
    (rootKey? rs).bind fun k => foldValues merge (valuesAt rs k) := by
  rw [h.rootValue]
  cases hroot : rootKey? rs with
  | none => rw [rootValues_eq_nil hroot]; rfl
  | some k =>
      rw [rootValues_eq_valuesAt hroot fun r hr hkey => lone r hr (by rw [hroot, hkey])]
      rfl

theorem value_nodeAbove {k : Key I} (hk : has rs k = true) :
    b.graph.value (b.nodeAbove root (some k)) = foldValues merge (valuesAt rs k) := by
  by_cases hroot : rootKey? rs = some k
  · rw [h.nodeAbove_root lone hroot, h.rootValue_eq lone, hroot, Option.bind_some]
  · have hvalue := h.nodeValue k
    rwa [h.find?_of_ne hk hroot, Option.bind_some, placedValues_of_ne hroot] at hvalue

theorem nodeAbove_injective {k l : Key I} (hk : has rs k = true) (hl : has rs l = true)
    (heq : b.nodeAbove root (some k) = b.nodeAbove root (some l)) : k = l := by
  have apart {k : Key I} (hk : has rs k = true) (hne : rootKey? rs ≠ some k) :
      b.nodeAbove root (some k) ≠ root := h.apart k _ (h.find?_of_ne hk hne)
  by_cases hkroot : rootKey? rs = some k <;> by_cases hlroot : rootKey? rs = some l
  · exact Option.some.inj (hkroot.symm.trans hlroot)
  · rw [h.nodeAbove_root lone hkroot] at heq
    exact absurd heq.symm (apart hl hlroot)
  · rw [h.nodeAbove_root lone hlroot] at heq
    exact absurd heq (apart hk hkroot)
  · have hfind := h.find?_of_ne hl hlroot
    rw [← heq] at hfind
    exact h.injective k l _ (h.find?_of_ne hk hkroot) hfind

theorem nodeAbove_decidedParent (k : Key I) : b.nodeAbove root (decidedParent rs k) =
    support rs root (fun k => b.nodeAbove root (some k)) k := by
  rw [support]
  cases decidedParent rs k with
  | none => rfl
  | some q =>
      dsimp only
      split
      · rfl
      · next hout =>
          have hnone : b.nodeOf.find? q = none := by
            cases hfind : b.nodeOf.find? q with
            | none => rfl
            | some n =>
                obtain ⟨hq, hne⟩ := mem_hangingKeys.1 ((h.find?_eq_some_iff lone).1 hfind).1
                simp [hq, hne] at hout
          rw [nodeAbove, Option.bind_some, hnone, Option.getD_none]

theorem holds_iff {k : Key I} {n : NodeId} : b.Holds k n ↔
    rootKey? rs = some k ∧ n = root ∨ k ∈ hangingKeys rs ∧ n = b.nodeAbove root (some k) := by
  rw [Holds, h.rootKey, h.rootNode, Option.some_inj, h.find?_eq_some_iff lone, eq_comm (a := root)]

theorem determined : Determined merge rs { b with graph := b.graph.attachAll (b.links root) } root
    fun k => b.nodeAbove root (some k) where
  rootKey := h.rootKey
  rootValue := (Graph.value_attachAll _ _ _).trans (h.rootValue_eq lone)
  apart := by
    refine List.nodup_cons.2 ⟨fun hroot => ?_, (nodup_hangingKeys rs).map_on fun k hk l hl heq => ?_⟩
    · obtain ⟨k, hk, heq⟩ := List.mem_map.1 hroot
      exact h.apart k _ ((h.find?_eq_some_iff lone).2 ⟨hk, rfl⟩) heq
    · exact h.nodeAbove_injective lone (mem_hangingKeys.1 hk).1 (mem_hangingKeys.1 hl).1 heq
  holds k n := h.holds_iff lone
  value k hk := (Graph.value_attachAll _ _ _).trans (h.value_nodeAbove lone (mem_hangingKeys.1 hk).1)
  decided k hk := by
    obtain ⟨hk, hne⟩ := mem_hangingKeys.1 hk
    rw [← resolvedParent_eq_decidedParent hk]
    exact (h.find?_parentOf hne).trans (if_pos hk)
  parent k hk := by
    obtain ⟨hk, hne⟩ := mem_hangingKeys.1 hk
    rw [← h.nodeAbove_decidedParent lone, ← resolvedParent_eq_decidedParent hk]
    exact h.parent_eq_some_iff.2 (h.mem_links.2 ⟨k, hk, hne, h.find?_of_ne hk hne, rfl⟩)
  unlinked n hn := by
    cases hparent : (b.graph.attachAll (b.links root)).parent n with
    | none => rfl
    | some m =>
        obtain ⟨k, -, -, hfind, -⟩ := h.mem_links.1 (h.parent_eq_some_iff.1 hparent)
        obtain ⟨hk, rfl⟩ := (h.find?_eq_some_iff lone).1 hfind
        exact absurd (List.mem_map_of_mem hk) hn
  children n := by
    rw [h.children_eq, positions_eq, List.filterMap_map, ← List.filterMap_eq_map,
      List.filterMap_filter]
    refine List.filterMap_congr fun k hk => ?_
    obtain ⟨hk, hne⟩ := mem_hangingKeys.1 hk
    rw [Function.comp_apply, resolvedParent_eq_decidedParent hk, h.nodeAbove_decidedParent lone,
      h.find?_of_ne hk hne]
    simp only [decide_eq_true_eq, Function.comp_apply]

end Ready

variable [LawfulBEq I]

/-- If no accepted call under the root's key names a parent, what is built is determined. -/
theorem build_determined (total : policy.MergesBy merge) (calls : List (Call I V))
    (lone : LoneRoot (Call.accepted calls)) (history : Delivery) :
    ∃ root after node,
      (build policy).run.run (Call.makeAll policy calls ⟨{}, history⟩) = (.ok root, after) ∧
        Determined merge (Call.accepted calls) after.builder root node := by
  obtain ⟨root, b, d, hready, hrun⟩ := Call.run_build_makeAll total calls history
  exact ⟨root, _, _, hrun, hready.determined lone⟩

def contestedCalls : List (Call String Nat) :=
  [⟨some "a", some "b", none, some 1⟩, ⟨some "b", some "c", some false, some 2⟩,
    ⟨none, some "a", none, some 3⟩, ⟨none, some "a", some true, some 4⟩,
    ⟨some "gone", some "b", none, some 5⟩, ⟨some "x", some "b", some true, some 6⟩,
    ⟨none, some "a", none, some 7⟩, ⟨none, some "d", none, some 8⟩,
    ⟨some "gone", some "e", none, some 9⟩, ⟨some "e", some "e", none, some 10⟩]

theorem build_determined_contested :
    (Policy.quiet (I := String) Nat.add).MergesBy Nat.add ∧
      LoneRoot (Call.accepted contestedCalls) ∧
      ∃ root after node, (build (Policy.quiet Nat.add)).run.run
          (Call.makeAll (Policy.quiet Nat.add) contestedCalls ⟨{}, .empty⟩) = (.ok root, after) ∧
        Determined Nat.add (Call.accepted contestedCalls) after.builder root node := by
  have lone : LoneRoot (Call.accepted contestedCalls) := by decide
  exact ⟨Policy.mergesBy_quiet Nat.add, lone,
    build_determined (Policy.mergesBy_quiet Nat.add) contestedCalls lone .empty⟩

end Builder

end SpanForest
