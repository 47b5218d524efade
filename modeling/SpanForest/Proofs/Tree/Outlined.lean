import SpanForest.Proofs.Tree.Built
import SpanForest.Proofs.Tree.Image
import SpanForest.Proofs.Tree.Lines

/-!
The outline of a built tree is told by what its registrations ask for: the root, the keys in order
of first registration, their parents and what their values come to. Two lists of registrations that
agree in these give one outline, whatever nodes the builders make on the way.
-/

namespace SpanForest

theorem forall₂_through {α β γ : Type} {R : α → β → Prop} {S : α → γ → Prop} {T : β → γ → Prop}
    (h : ∀ a b c, R a b → S a c → T b c) {as : List α} {bs : List β} {cs : List γ}
    (hR : List.Forall₂ R as bs) (hS : List.Forall₂ S as cs) : List.Forall₂ T bs cs := by
  induction hR generalizing cs with
  | nil =>
      cases hS
      exact .nil
  | cons hab _ ih =>
      cases hS with
      | cons hac hrest => exact .cons (h _ _ _ hab hac) (ih hrest)

theorem forall₂_filterMap {α β γ : Type} {R : β → γ → Prop} {f : α → Option β} {f' : α → Option γ}
    (h : ∀ a, f a = none ∧ f' a = none ∨ ∃ b c, f a = some b ∧ f' a = some c ∧ R b c)
    (as : List α) : List.Forall₂ R (as.filterMap f) (as.filterMap f') := by
  induction as with
  | nil => exact .nil
  | cons a as ih =>
      rcases h a with ⟨hf, hf'⟩ | ⟨b, c, hf, hf', hR⟩
      · rwa [List.filterMap_cons_none hf, List.filterMap_cons_none hf']
      · rw [List.filterMap_cons_some hf, List.filterMap_cons_some hf']
        exact .cons hR ih

namespace Graph

variable {V : Type}

theorem outlineWithin_mono {g : Graph V} {levels more : Nat} (hle : levels ≤ more) {n : NodeId}
    {t : Tree (Option V)} (h : g.outlineWithin levels n = some t) :
    g.outlineWithin more n = some t := by
  induction levels generalizing more n t with
  | zero => simp [outlineWithin] at h
  | succ levels ih =>
      obtain ⟨more, rfl⟩ : ∃ m, more = m + 1 := ⟨more - 1, by omega⟩
      obtain ⟨below, hbelow, rfl⟩ := (outlineWithin_succ levels n t).1 h
      refine (outlineWithin_succ more n _).2 ⟨below, hbelow.imp fun c t hc => ?_, rfl⟩
      exact ih (by omega) hc

structure Corresponds (R : NodeId → NodeId → Prop) (g g' : Graph V) : Prop where
  value : ∀ m n, R m n → g.value m = g'.value n
  children : ∀ m n, R m n → List.Forall₂ R (g.children m) (g'.children n)

variable {g g' : Graph V} {R : NodeId → NodeId → Prop}

theorem Corresponds.map {W : Type} (h : Corresponds R g g') (f : V → W) :
    Corresponds R (g.map f) (g'.map f) where
  value m n hmn := by rw [value_map, value_map, h.value m n hmn]
  children m n hmn := by
    rw [children_map, children_map]
    exact h.children m n hmn

theorem Corresponds.outlineWithin (h : Corresponds R g g') (levels : Nat) {m n : NodeId}
    (hmn : R m n) {t : Tree (Option V)} (ht : g.outlineWithin levels m = some t) :
    g'.outlineWithin levels n = some t := by
  induction levels generalizing m n t with
  | zero => simp [Graph.outlineWithin] at ht
  | succ levels ih =>
      obtain ⟨below, hbelow, rfl⟩ := (outlineWithin_succ levels m t).1 ht
      rw [h.value m n hmn]
      refine (outlineWithin_succ levels n _).2 ⟨below, ?_, rfl⟩
      have hstep (c c' : NodeId) (t : Tree (Option V)) (hc : R c c')
          (ht : g.outlineWithin levels c = some t) : g'.outlineWithin levels c' = some t := ih hc ht
      exact forall₂_through hstep (h.children m n hmn) hbelow

theorem Corresponds.outline_eq (h : Corresponds R g g') {root root' : NodeId} (hroot : R root root')
    (hg : g.WellLinked root) (hg' : g'.WellLinked root') :
    ∃ t, g.outline root = some t ∧ g'.outline root' = some t := by
  obtain ⟨t, ht⟩ := hg.outline_isSome
  obtain ⟨t', ht'⟩ := hg'.outline_isSome
  have hsame := outlineWithin_mono (Nat.le_max_left g.size g'.size) (h.outlineWithin _ hroot ht)
  have hsame' := outlineWithin_mono (Nat.le_max_right g.size g'.size) ht'
  rw [hsame, Option.some.injEq] at hsame'
  exact ⟨t, ht, hsame' ▸ ht'⟩

end Graph

variable {I V : Type} [BEq I] {merge : V → V → V}

namespace Registered

def positions (rs : List (Registration I V)) : List (Key I × Option (Key I)) :=
  ((rs.map Registration.key).eraseDups.filter fun k => !(rootKey? rs == some k)).map fun k =>
    (k, resolvedParent rs k)

structure Agree (merge : V → V → V) (rs rs' : List (Registration I V)) : Prop where
  rootKey : rootKey? rs = rootKey? rs'
  positions : positions rs = positions rs'
  rootValue : foldValues merge (rootValues rs) = foldValues merge (rootValues rs')
  nodeValue : ∀ k, foldValues merge (placedValues rs k) = foldValues merge (placedValues rs' k)

end Registered

open Registered

namespace Builder

namespace Ready

variable [LawfulBEq I] {rs : List (Registration I V)} {b : Builder I V} {root : NodeId}
  (h : Ready merge rs b root)
include h

theorem parentOf_eq :
    b.parentOf.filter (fun entry => !(rootKey? rs == some entry.1)) = positions rs := by
  have hkeys : (b.parentOf.filter fun entry => !(rootKey? rs == some entry.1)).map Prod.fst =
      (rs.map Registration.key).eraseDups.filter fun k => !(rootKey? rs == some k) := by
    rw [← h.parents.keys_eq, Table.keys, List.filter_map]
    rfl
  rw [positions, ← hkeys, List.map_map]
  refine (List.map_id _).symm.trans (List.map_congr_left fun entry hentry => ?_)
  obtain ⟨hmem, hne⟩ := List.mem_filter.1 hentry
  rw [Bool.not_eq_true', beq_eq_false_iff_ne] at hne
  have hfind := Table.find?_of_mem h.parents.nodup hmem
  rw [h.find?_parentOf hne] at hfind
  split at hfind
  · exact Prod.ext rfl (Option.some.inj hfind).symm
  · cases hfind

theorem links_eq : b.links root = (positions rs).filterMap fun entry =>
    (b.nodeOf.find? entry.1).map fun n => (b.nodeAbove root entry.2, n) := by
  rw [← h.parentOf_eq, links, List.filterMap_filter]
  refine List.filterMap_congr fun entry _ => ?_
  rw [linkOf, h.rootKey]
  cases rootKey? rs == some entry.1 <;> rfl

theorem children_eq (m : NodeId) : (b.graph.attachAll (b.links root)).children m =
    (positions rs).filterMap fun entry =>
      if b.nodeAbove root entry.2 = m then b.nodeOf.find? entry.1 else none := by
  rw [Graph.children_attachAll (fun link hlink => (h.links_lt link hlink).1), (h.bare m).2,
    List.nil_append, h.links_eq, List.filter_filterMap, List.map_filterMap]
  refine List.filterMap_congr fun entry _ => ?_
  cases b.nodeOf.find? entry.1 with
  | none => simp
  | some n => by_cases hm : b.nodeAbove root entry.2 = m <;> simp [hm]

end Ready

def Twins (b b' : Builder I V) (root root' m n : NodeId) : Prop :=
  m = root ∧ n = root' ∨ ∃ k, b.nodeOf.find? k = some m ∧ b'.nodeOf.find? k = some n

section

variable {rs rs' : List (Registration I V)} {b b' : Builder I V} {root root' : NodeId}
  (h : Ready merge rs b root) (h' : Ready merge rs' b' root') (agree : Agree merge rs rs')
include h h' agree

theorem node_of_agree (k : Key I) : b.nodeOf.find? k = none ∧ b'.nodeOf.find? k = none ∨
    ∃ m n, b.nodeOf.find? k = some m ∧ b'.nodeOf.find? k = some n := by
  have hsome : (b.nodeOf.find? k).isSome = (b'.nodeOf.find? k).isSome := by
    rw [h.find?_isSome, h'.find?_isSome, ← foldValues_isSome merge, agree.nodeValue,
      foldValues_isSome]
  cases hm : b.nodeOf.find? k <;> cases hn : b'.nodeOf.find? k <;> simp [hm, hn] at hsome ⊢

theorem nodeAbove_of_agree {m n : NodeId} (hmn : Twins b b' root root' m n)
    (parent : Option (Key I)) : b.nodeAbove root parent = m ↔ b'.nodeAbove root' parent = n := by
  have hfind : parent.bind b.nodeOf.find? = none ∧ parent.bind b'.nodeOf.find? = none ∨
      ∃ k m n, parent.bind b.nodeOf.find? = some m ∧ parent.bind b'.nodeOf.find? = some n ∧
        b.nodeOf.find? k = some m ∧ b'.nodeOf.find? k = some n := by
    cases parent with
    | none => exact .inl ⟨rfl, rfl⟩
    | some k =>
        rcases node_of_agree h h' agree k with hnone | ⟨m, n, hm, hn⟩
        · exact .inl hnone
        · exact .inr ⟨k, m, n, hm, hn, hm, hn⟩
  -- a parent without a node means the root, and any other node belongs to one key only
  rw [nodeAbove, nodeAbove]
  rcases hfind with ⟨hm, hn⟩ | ⟨k, l, l', hm, hn, hk, hk'⟩
  · rw [hm, hn, Option.getD_none, Option.getD_none]
    rcases hmn with ⟨rfl, rfl⟩ | ⟨j, hj, hj'⟩
    · exact iff_of_true rfl rfl
    · exact iff_of_false (fun e => h.apart j m hj e.symm) fun e => h'.apart j n hj' e.symm
  · rw [hm, hn, Option.getD_some, Option.getD_some]
    rcases hmn with ⟨rfl, rfl⟩ | ⟨j, hj, hj'⟩
    · exact iff_of_false (h.apart k l hk) (h'.apart k l' hk')
    · constructor
      · rintro rfl
        obtain rfl := h.injective k j _ hk hj
        exact Option.some.inj (hk'.symm.trans hj')
      · rintro rfl
        obtain rfl := h'.injective k j _ hk' hj'
        exact Option.some.inj (hk.symm.trans hj)

variable [LawfulBEq I]

theorem corresponds_of_agree : Graph.Corresponds (Twins b b' root root')
    (b.graph.attachAll (b.links root)) (b'.graph.attachAll (b'.links root')) where
  value m n hmn := by
    rw [Graph.value_attachAll, Graph.value_attachAll]
    rcases hmn with ⟨rfl, rfl⟩ | ⟨k, hk, hk'⟩
    · rw [h.rootValue, h'.rootValue, agree.rootValue]
    · have hvalue := h.nodeValue k
      rw [agree.nodeValue, ← h'.nodeValue k, hk, hk'] at hvalue
      exact hvalue
  children m n hmn := by
    rw [h.children_eq, h'.children_eq, ← agree.positions]
    refine forall₂_filterMap (fun entry => ?_) _
    have habove := nodeAbove_of_agree h h' agree hmn entry.2
    by_cases hm : b.nodeAbove root entry.2 = m
    · rw [if_pos hm, if_pos (habove.1 hm)]
      rcases node_of_agree h h' agree entry.1 with hnone | ⟨l, l', hl, hl'⟩
      · exact .inl hnone
      · exact .inr ⟨l, l', hl, hl', .inr ⟨entry.1, hl, hl'⟩⟩
    · rw [if_neg hm, if_neg (mt habove.2 hm)]
      exact .inl ⟨rfl, rfl⟩

end

end Builder

end SpanForest
