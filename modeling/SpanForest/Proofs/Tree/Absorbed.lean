import SpanForest.Proofs.Tree.Absorption

/-!
A builder that has taken in some of its registrations. Its nodes hold what comes together under
their keys so far, and its parents are those known so far; one more registration keeps this true,
hence all of them do.
-/

namespace SpanForest

open Registered

variable {I V : Type} [BEq I] {merge : V → V → V}

namespace Builder

structure KeyNodes (merge : V → V → V) (done : List (Registration I V)) (b : Builder I V) :
    Prop where
  bare : b.graph.Bare
  rootKey : b.rootKey = rootKey? done
  nodeValue : ∀ k, (b.nodeOf.find? k).bind b.graph.value = foldValues merge (placedValues done k)
  node_isSome : ∀ k n, b.nodeOf.find? k = some n → (b.graph.value n).isSome
  injective : ∀ k l n, b.nodeOf.find? k = some n → b.nodeOf.find? l = some n → k = l

namespace KeyNodes

variable {done : List (Registration I V)} {b : Builder I V} (h : KeyNodes merge done b)
include h

theorem node_lt {k : Key I} {n : NodeId} (hn : b.nodeOf.find? k = some n) : n < b.graph.size := by
  obtain ⟨v, hv⟩ := Option.isSome_iff_exists.1 (h.node_isSome k n hn)
  exact Graph.lt_size_of_value hv

theorem find?_isSome (k : Key I) : (b.nodeOf.find? k).isSome = !(placedValues done k).isEmpty := by
  rw [← foldValues_isSome merge, ← h.nodeValue k]
  cases hn : b.nodeOf.find? k with
  | none => rfl
  | some n => exact (h.node_isSome k n hn).symm

theorem has_of_find? {k : Key I} {n : NodeId} (hn : b.nodeOf.find? k = some n) :
    has done k = true := by
  have hsome := h.find?_isSome k
  rw [hn] at hsome
  have hne : placedValues done k ≠ [] := by
    intro hnil
    rw [hnil] at hsome
    cases hsome
  obtain ⟨v, hv⟩ := List.exists_mem_of_ne_nil _ hne
  obtain ⟨r, hr, -⟩ := List.mem_map.1 hv
  obtain ⟨hr, hk⟩ := List.mem_filter.1 hr
  exact List.any_eq_true.2 ⟨r, hr, (Bool.and_eq_true_iff.1 hk).1⟩

theorem exists_node [LawfulBEq I] {k : Key I} (hk : has done k = true)
    (hne : rootKey? done ≠ some k) : ∃ n, b.nodeOf.find? k = some n := by
  obtain ⟨r, hr, hrk⟩ := List.any_eq_true.1 hk
  rw [← Option.isSome_iff_exists, h.find?_isSome, placedValues_of_ne hne, Bool.not_eq_true',
    List.isEmpty_eq_false_iff]
  exact List.ne_nil_of_mem (List.mem_map_of_mem (List.mem_filter.2 ⟨hr, hrk⟩))

end KeyNodes

structure NodesAfter (merge : V → V → V) (done : List (Registration I V)) (b : Builder I V) : Prop
    extends KeyNodes merge done b where
  rootNode : b.rootNode.isSome = b.rootKey.isSome
  rootValue : ∀ n, b.rootNode = some n → b.graph.value n = foldValues merge (rootValues done)
  apart : ∀ k n, b.nodeOf.find? k = some n → b.rootNode ≠ some n

namespace NodesAfter

variable {done : List (Registration I V)} {b : Builder I V} (h : NodesAfter merge done b)
include h

theorem withParents (t : Table (Key I) (Option (Key I))) :
    NodesAfter merge done { b with parentOf := t } :=
  ⟨⟨h.bare, h.rootKey, h.nodeValue, h.node_isSome, h.injective⟩, h.rootNode, h.rootValue, h.apart⟩

theorem rootKey?_append {r : Registration I V}
    (hfound : r.isHeadless = true → b.rootNode.isSome) : rootKey? (done ++ [r]) = rootKey? done := by
  rw [rootKey?_append_singleton]
  cases headless : r.isHeadless with
  | false => exact Option.or_none
  | true =>
      have hsome := hfound headless
      rw [h.rootNode, h.rootKey] at hsome
      obtain ⟨k, hk⟩ := Option.isSome_iff_exists.1 hsome
      rw [hk]
      rfl

variable [LawfulBEq I]

theorem root_isSome {n : NodeId} (hn : b.rootNode = some n) :
    b.rootKey.isSome ∧ (b.graph.value n).isSome := by
  have hkey : b.rootKey.isSome := by rw [← h.rootNode, hn]; rfl
  obtain ⟨k, hk⟩ := Option.isSome_iff_exists.1 (h.rootKey ▸ hkey)
  refine ⟨hkey, ?_⟩
  rw [h.rootValue n hn, foldValues_isSome, Bool.not_eq_true', List.isEmpty_eq_false_iff]
  exact rootValues_ne_nil hk

theorem valued : b.Valued := ⟨fun _ => h.root_isSome, h.node_isSome⟩

theorem root_lt {n : NodeId} (hn : b.rootNode = some n) : n < b.graph.size := by
  obtain ⟨v, hv⟩ := Option.isSome_iff_exists.1 (h.root_isSome hn).2
  exact Graph.lt_size_of_value hv

theorem metBy_eq (r : Registration I V) : b.metBy r = foldValues merge (earlier done r) := by
  rw [earlier, isRootPart_self, ← h.rootKey]
  cases headless : r.isHeadless with
  | false =>
      rw [metBy_placed (by simp [headless]), h.nodeValue]
      rfl
  | true =>
      have hsome := h.rootNode
      cases hroot : b.rootNode with
      | none =>
          rw [hroot, Option.isSome_none, eq_comm, Option.isSome_eq_false_iff,
            Option.isNone_iff_eq_none] at hsome
          rw [hsome, rootValues_eq_nil (h.rootKey.symm.trans hsome)]
          simp only [metBy, headless, hroot]
          rfl
      | some root =>
          rw [hroot, Option.isSome_some, eq_comm] at hsome
          obtain ⟨k, hk⟩ := Option.isSome_iff_exists.1 hsome
          rw [hk, Option.all_some, Bool.true_and]
          cases hkey : k == r.key with
          | true =>
              rw [metBy_joined headless hroot (by rwa [hk]), h.rootValue root hroot]
              rfl
          | false =>
              rw [metBy_placed fun _ => ⟨by rw [hroot]; rfl, by rwa [hk]⟩, h.nodeValue]
              rfl

theorem planted {r : Registration I V} (headless : r.isHeadless = true) (hroot : b.rootNode = none) :
    NodesAfter merge (done ++ [r]) (b.plant r.key r.value) := by
  have hnone : rootKey? done = none := by
    rw [← h.rootKey, ← Option.isNone_iff_eq_none, ← Option.not_isSome, ← h.rootNode, hroot]
    rfl
  have hself : isRootPart (done ++ [r]) r = true := by
    rw [isRootPart_self, headless, hnone]
    rfl
  have hvalue {k n} (hn : b.nodeOf.find? k = some n) :
      (b.plant r.key r.value).graph.value n = b.graph.value n := by
    rw [plant, Graph.value_add, if_neg (Nat.ne_of_lt (h.node_lt hn))]
  refine ⟨⟨h.bare.add _, ?_, ?_, ?_, h.injective⟩, rfl, ?_, ?_⟩
  · rw [rootKey?_append_singleton, hnone, headless]
    rfl
  · intro k
    rw [placedValues_append_singleton, hself, Bool.not_true, Bool.and_false,
      if_neg Bool.false_ne_true, List.append_nil, ← h.nodeValue k]
    exact Option.bind_congr fun n hn => hvalue hn
  · intro k n hn
    rw [hvalue hn]
    exact h.node_isSome k n hn
  · rintro n hn
    rw [← Option.some.inj hn, rootValues_append_singleton, hself, rootValues_eq_nil hnone]
    exact Graph.value_add_size _ _
  · intro k n hn heq
    exact Nat.ne_of_lt (h.node_lt hn) (Option.some.inj heq).symm

theorem joined {r : Registration I V} (headless : r.isHeadless = true) {root : NodeId}
    (hroot : b.rootNode = some root) (hkey : (b.rootKey == some r.key) = true) {old : V}
    (hold : b.graph.value root = some old) :
    NodesAfter merge (done ++ [r]) { b with graph := b.graph.setValue root (merge old r.value) } := by
  have hsome : rootKey? done = some r.key := by rw [← h.rootKey, eq_of_beq hkey]
  have hself : isRootPart (done ++ [r]) r = true := by simp [isRootPart_self, headless, hsome]
  have hvalue {k n} (hn : b.nodeOf.find? k = some n) :
      (b.graph.setValue root (merge old r.value)).value n = b.graph.value n := by
    rw [Graph.value_setValue, if_neg]
    rintro ⟨rfl, -⟩
    exact h.apart k _ hn hroot
  refine ⟨⟨h.bare.setValue _ _, ?_, ?_, ?_, h.injective⟩, h.rootNode, ?_, h.apart⟩
  · rw [rootKey?_append_singleton, hsome]
    exact h.rootKey.trans hsome
  · intro k
    rw [placedValues_append_singleton, hself, Bool.not_true, Bool.and_false,
      if_neg Bool.false_ne_true, List.append_nil, ← h.nodeValue k]
    exact Option.bind_congr fun n hn => hvalue hn
  · intro k n hn
    rw [hvalue hn]
    exact h.node_isSome k n hn
  · intro n hn
    obtain rfl : root = n := Option.some.inj (hroot.symm.trans hn)
    rw [rootValues_append_singleton, hself, if_pos rfl, foldValues_append_singleton,
      ← h.rootValue root hroot, hold, Graph.value_setValue, if_pos ⟨rfl, h.root_lt hroot⟩]

theorem placed {r : Registration I V}
    (happart : r.isHeadless = true → b.rootNode.isSome ∧ (b.rootKey == some r.key) = false) :
    NodesAfter merge (done ++ [r]) (b.place r.key (b.mergedAt merge r.key r.value)) := by
  have hself : isRootPart (done ++ [r]) r = false := by
    rw [isRootPart_self]
    cases headless : r.isHeadless with
    | false => rfl
    | true =>
        obtain ⟨hsome, hne⟩ := happart headless
        rw [h.rootNode] at hsome
        obtain ⟨k, hk⟩ := Option.isSome_iff_exists.1 hsome
        rw [← h.rootKey, hk]
        simpa [hk] using hne
  have hrootKey := h.rootKey?_append fun headless => (happart headless).1
  have hvalue {n} (hn : n < b.graph.size) :
      (b.place r.key (b.mergedAt merge r.key r.value)).graph.value n = b.graph.value n := by
    rw [place, Graph.value_add, if_neg (Nat.ne_of_lt hn)]
  have hfind (k : Key I) : (b.place r.key (b.mergedAt merge r.key r.value)).nodeOf.find? k =
      if r.key == k then some b.graph.size else b.nodeOf.find? k := Table.find?_put _ _ _ _
  -- the new node has a number that no node had, so it is apart from all of them
  refine ⟨⟨h.bare.add _, h.rootKey.trans hrootKey.symm, ?_, ?_, ?_⟩, h.rootNode, ?_, ?_⟩
  · intro k
    rw [placedValues_append_singleton, hself, Bool.not_false, Bool.and_true, hfind]
    cases hk : r.key == k with
    | false =>
        rw [if_neg Bool.false_ne_true, if_neg Bool.false_ne_true, List.append_nil, ← h.nodeValue k]
        exact Option.bind_congr fun n hn => hvalue (h.node_lt hn)
    | true =>
        rw [if_pos rfl, if_pos rfl, foldValues_append_singleton, ← h.nodeValue k, ← eq_of_beq hk]
        exact Graph.value_add_size _ _
  · intro k n hn
    rw [hfind] at hn
    split at hn
    · rw [← Option.some.inj hn]
      exact Option.isSome_iff_exists.2 ⟨_, Graph.value_add_size _ _⟩
    · rw [hvalue (h.node_lt hn)]
      exact h.node_isSome k n hn
  · intro k l n hk hl
    rw [hfind] at hk hl
    split at hk <;> split at hl
    · next hkr hlr => exact (eq_of_beq hkr).symm.trans (eq_of_beq hlr)
    · exact absurd (Option.some.inj hk).symm (Nat.ne_of_lt (h.node_lt hl))
    · exact absurd (Option.some.inj hl).symm (Nat.ne_of_lt (h.node_lt hk))
    · exact h.injective k l n hk hl
  · intro n hn
    rw [rootValues_append_singleton, hself, if_neg Bool.false_ne_true, List.append_nil,
      ← h.rootValue n hn]
    exact hvalue (h.root_lt hn)
  · intro k n hn heq
    rw [hfind] at hn
    split at hn
    · exact Nat.ne_of_lt (h.root_lt heq) (Option.some.inj hn).symm
    · exact h.apart k n hn heq

end NodesAfter

end Builder

end SpanForest
