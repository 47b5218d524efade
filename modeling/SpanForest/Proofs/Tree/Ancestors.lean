import SpanForest.Proofs.Tree.Kept

/-!
Nodes above a node: its parent, the parent of that, and so on. A builder refuses a registration that
names itself and no other cycle, so a node can be above itself, and then the root does not reach it.
It is above itself exactly if its key is, by way of the parents that building decides on. Not
covered: what else is lost with such a node.
-/

namespace SpanForest

open Registered

variable {I V : Type}

namespace Graph

/-- The second node is met on the way up from the first. -/
def Ancestor (g : Graph V) : NodeId → NodeId → Prop :=
  Relation.TransGen fun n m => g.parent n = some m

theorem WellLinked.not_ancestor {g : Graph V} {root : NodeId} (h : g.WellLinked root) {n : NodeId}
    (hreach : g.Reaches root n) : ¬ g.Ancestor n n := by
  induction hreach with
  | refl =>
      intro hup
      obtain ⟨m, hparent, -⟩ := Relation.TransGen.head'_iff.1 hup
      rw [h.root_parent] at hparent
      cases hparent
  | tail _ hchild ih =>
      intro hup
      have hparent := h.parent _ _ hchild
      obtain ⟨m, hm, hback⟩ := Relation.TransGen.head'_iff.1 hup
      obtain rfl := Option.some.inj (hparent.symm.trans hm)
      exact ih (.tail' hback hparent)

end Graph

namespace Registered

variable [BEq I]

/-- A key hangs from another: it is not the root's, and the other is what building decides on as its
parent. -/
def HangsFrom (rs : List (Registration I V)) (k q : Key I) : Prop :=
  has rs k = true ∧ rootKey? rs ≠ some k ∧ resolvedParent rs k = some q

/-- The second key is met on the way up from the first. -/
def Ancestor (rs : List (Registration I V)) : Key I → Key I → Prop :=
  Relation.TransGen (HangsFrom rs)

variable [LawfulBEq I] {rs : List (Registration I V)}

theorem Ancestor.namesParent {k q : Key I} (h : Ancestor rs k q) :
    Relation.TransGen (NamesParent rs) k.id q.id ∨
      (k.shared = true ∧ q = ⟨k.id, false⟩) := by
  have step {k q : Key I} (hstep : HangsFrom rs k q) :
      NamesParent rs k.id q.id ∨ (k.shared = true ∧ q = ⟨k.id, false⟩) := by
    obtain ⟨-, -, hparent⟩ := hstep
    obtain ⟨i, shared⟩ := k
    cases shared with
    | false => exact .inl (resolvedParent_plain hparent)
    | true => exact .inr ⟨rfl, resolvedParent_shared hparent⟩
  induction h with
  | single hstep => exact (step hstep).imp_left .single
  | tail _ hstep ih =>
      rcases ih with ih | ⟨hshared, rfl⟩
      · rcases step hstep with hnames | ⟨-, rfl⟩
        · exact .inl (ih.tail hnames)
        · exact .inl ih
      · rcases step hstep with hnames | ⟨hplain, -⟩
        · exact .inl (.single hnames)
        · cases hplain

theorem Acyclic.not_ancestor (acyclic : Acyclic rs) (k : Key I) : ¬ Ancestor rs k k := by
  intro h
  rcases h.namesParent with hcycle | ⟨hshared, hplain⟩
  · exact acyclic k.id hcycle
  · rw [hplain] at hshared
    cases hshared

end Registered

namespace Builder

variable [BEq I] {policy : Policy I V} {merge : V → V → V}

namespace Ready

variable {rs : List (Registration I V)} {b : Builder I V} {root : NodeId}
  (h : Ready merge rs b root)
include h

variable [LawfulBEq I]

theorem parent_eq_some_iff {n m : NodeId} :
    (b.graph.attachAll (b.links root)).parent n = some m ↔ (m, n) ∈ b.links root := by
  have hlt : ∀ link ∈ b.links root, link.2 < b.graph.size := fun link hlink =>
    (h.links_lt link hlink).2
  constructor
  · intro hparent
    by_cases hn : n ∈ (b.links root).map Prod.snd
    · obtain ⟨⟨p, n⟩, hlink, rfl⟩ := List.mem_map.1 hn
      rw [Graph.parent_attachAll hlt h.nodup_links hlink] at hparent
      rwa [← Option.some.inj hparent]
    · rw [Graph.parent_attachAll_of_notMem hlt hn, (h.bare n).1] at hparent
      cases hparent
  · exact fun hlink => Graph.parent_attachAll hlt h.nodup_links hlink

theorem parent_cases {n m : NodeId}
    (hparent : (b.graph.attachAll (b.links root)).parent n = some m) :
    ∃ k, b.nodeOf.find? k = some n ∧
      (m = root ∨ ∃ q, HangsFrom rs k q ∧ b.nodeOf.find? q = some m) := by
  obtain ⟨k, hhas, hne, hn, rfl⟩ := h.mem_links.1 (h.parent_eq_some_iff.1 hparent)
  refine ⟨k, hn, ?_⟩
  rw [nodeAbove]
  cases hfind : (resolvedParent rs k).bind b.nodeOf.find? with
  | none => exact .inl rfl
  | some m =>
      obtain ⟨q, hq, hm⟩ := Option.bind_eq_some_iff.1 hfind
      exact .inr ⟨q, ⟨hhas, hne, hq⟩, hm⟩

theorem parent_of_hangsFrom {k q : Key I} (hstep : HangsFrom rs k q) {n m : NodeId}
    (hn : b.nodeOf.find? k = some n) (hm : b.nodeOf.find? q = some m) :
    (b.graph.attachAll (b.links root)).parent n = some m := by
  obtain ⟨hhas, hne, hparent⟩ := hstep
  refine h.parent_eq_some_iff.2 (h.mem_links.2 ⟨k, hhas, hne, hn, ?_⟩)
  rw [hparent, nodeAbove, Option.bind_some, hm, Option.getD_some]

theorem parent_root : (b.graph.attachAll (b.links root)).parent root = none := h.wellLinked.root_parent

theorem ancestor_cases {n m : NodeId}
    (hup : (b.graph.attachAll (b.links root)).Ancestor n m) :
    ∃ k, b.nodeOf.find? k = some n ∧
      (m = root ∨ ∃ q, Ancestor rs k q ∧ b.nodeOf.find? q = some m) := by
  induction hup with
  | single hparent =>
      obtain ⟨k, hn, hroot | ⟨q, hstep, hm⟩⟩ := h.parent_cases hparent
      · exact ⟨k, hn, .inl hroot⟩
      · exact ⟨k, hn, .inr ⟨q, .single hstep, hm⟩⟩
  | tail _ hparent ih =>
      obtain ⟨k, hn, rfl | ⟨q, hup, hm⟩⟩ := ih
      · rw [h.parent_root] at hparent
        cases hparent
      · refine ⟨k, hn, ?_⟩
        obtain ⟨q', hq', hroot | ⟨p, hstep, hp⟩⟩ := h.parent_cases hparent
        · exact .inl hroot
        · rw [h.injective q' q _ hq' hm] at hstep
          exact .inr ⟨p, hup.tail hstep, hp⟩

theorem ancestor_of_keys {k q : Key I} (hup : Ancestor rs k q) {n m : NodeId}
    (hn : b.nodeOf.find? k = some n) (hm : b.nodeOf.find? q = some m) :
    (b.graph.attachAll (b.links root)).Ancestor n m := by
  induction hup generalizing m with
  | single hstep => exact .single (h.parent_of_hangsFrom hstep hn hm)
  | tail _ hstep ih =>
      -- a key that hangs from another is registered and not the root's, so it has a node
      obtain ⟨m', hm'⟩ := h.exists_node hstep.1 hstep.2.1
      exact (ih hm').tail (h.parent_of_hangsFrom hstep hm' hm)

theorem ancestor_self_iff :
    (∃ n, (b.graph.attachAll (b.links root)).Ancestor n n) ↔ ∃ k, Ancestor rs k k := by
  constructor
  · rintro ⟨n, hup⟩
    obtain ⟨k, hn, rfl | ⟨q, hkq, hq⟩⟩ := h.ancestor_cases hup
    · exact absurd rfl (h.apart k _ hn)
    · rw [h.injective q k n hq hn] at hkq
      exact ⟨k, hkq⟩
  · rintro ⟨k, hup⟩
    obtain ⟨q, hstep, -⟩ := Relation.TransGen.head'_iff.1 hup
    obtain ⟨n, hn⟩ := h.exists_node hstep.1 hstep.2.1
    exact ⟨n, h.ancestor_of_keys hup hn hn⟩

end Ready

variable [LawfulBEq I]

/-- After any calls and one build, no node is above itself exactly if no key is, by way of the parents
that building decides on. -/
theorem build_not_ancestor_iff (total : policy.MergesBy merge) (calls : List (Call I V))
    (history : Delivery) :
    ∃ root after,
      (build policy).run.run (Call.makeAll policy calls ⟨{}, history⟩) = (.ok root, after) ∧
        ((∀ n, ¬ after.builder.graph.Ancestor n n) ↔
          ∀ k, ¬ Registered.Ancestor (Call.accepted calls) k k) := by
  obtain ⟨root, b, d, hready, hrun⟩ := Call.run_build_makeAll total calls history
  refine ⟨root, _, hrun, ?_⟩
  rw [← not_exists, ← not_exists]
  exact not_congr hready.ancestor_self_iff

theorem build_not_ancestor_iff_tangled :
    (Policy.quiet (I := String) Nat.max).MergesBy Nat.max ∧
      ∃ root after, (build (Policy.quiet Nat.max)).run.run
          (Call.makeAll (Policy.quiet Nat.max) tangledCalls ⟨{}, .empty⟩) = (.ok root, after) ∧
        ((∀ n, ¬ after.builder.graph.Ancestor n n) ↔
          ∀ k, ¬ Registered.Ancestor (Call.accepted tangledCalls) k k) :=
  ⟨Policy.mergesBy_quiet Nat.max,
    build_not_ancestor_iff (Policy.mergesBy_quiet Nat.max) tangledCalls .empty⟩

theorem build_not_ancestor (total : policy.MergesBy merge) (calls : List (Call I V))
    (acyclic : Acyclic (Call.accepted calls)) (history : Delivery) :
    ∃ root after,
      (build policy).run.run (Call.makeAll policy calls ⟨{}, history⟩) = (.ok root, after) ∧
        ∀ n, ¬ after.builder.graph.Ancestor n n := by
  obtain ⟨root, b, d, hready, hrun⟩ := Call.run_build_makeAll total calls history
  refine ⟨root, _, hrun, not_exists.1 fun hself => ?_⟩
  obtain ⟨k, hk⟩ := hready.ancestor_self_iff.1 hself
  exact acyclic.not_ancestor k hk

/-- Calls for a root and for two ids that name each other. -/
def mutualCalls : List (Call String String) :=
  [⟨none, some "r", none, some "R"⟩, ⟨some "b", some "a", none, some "A"⟩,
    ⟨some "a", some "b", none, some "B"⟩]

/-- Each of the two nodes is the parent of the other. -/
theorem ancestor_self_mutualCalls :
    ∃ root after, (build (Policy.quiet fun v w => v ++ "+" ++ w)).run.run
        (Call.makeAll (Policy.quiet fun v w => v ++ "+" ++ w) mutualCalls ⟨{}, .empty⟩) =
          (.ok root, after) ∧
      ∃ n, after.builder.graph.Ancestor n n := by
  refine ⟨0, _, Prod.ext (eq_ok_of_toOption (by decide +kernel)) rfl, 1, ?_⟩
  exact .tail (.single (b := 2) (by decide +kernel)) (by decide +kernel)

end Builder

end SpanForest
