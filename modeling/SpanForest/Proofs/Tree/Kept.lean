import Mathlib.Order.WellFoundedSet
import SpanForest.Proofs.Tree.Rooted

/-!
What becomes of the registrations when no id is, by way of parents, above itself. Each key but the
root's has one node that the root reaches, with all values of the key, unless it hangs below a
second node of the root's own key: a registration under that key that names a parent gets a node
which nothing links. The main statement says exactly when nothing is lost to it.
-/

namespace SpanForest

open Registered

variable {I V : Type}

namespace Registered

/-- A plain registration of the id `i` names `p` as its parent. -/
def NamesParent (rs : List (Registration I V)) (i p : I) : Prop :=
  ∃ r ∈ rs, r.shared = false ∧ r.id = i ∧ r.parentId = some p

def Acyclic (rs : List (Registration I V)) : Prop :=
  ∀ i, ¬ Relation.TransGen (NamesParent rs) i i

theorem Acyclic.wellFoundedOn {rs : List (Registration I V)} (h : Acyclic rs) :
    {i | i ∈ rs.map Registration.id}.WellFoundedOn
      fun p i => Relation.TransGen (NamesParent rs) i p := by
  have order : IsStrictOrder I fun p i => Relation.TransGen (NamesParent rs) i p :=
    { irrefl := h, trans := fun _ _ _ hab hbc => hbc.trans hab }
  exact (List.finite_toSet _).wellFoundedOn

theorem acyclic_of_rank {rs : List (Registration I V)} (rank : I → Nat)
    (h : ∀ r ∈ rs, r.shared = false → ∀ p, r.parentId = some p → rank p < rank r.id) :
    Acyclic rs := by
  have lower {i j} (hij : Relation.TransGen (NamesParent rs) i j) : rank j < rank i := by
    induction hij with
    | single hstep =>
        obtain ⟨r, hr, hs, rfl, hp⟩ := hstep
        exact h r hr hs _ hp
    | tail _ hstep ih =>
        obtain ⟨r, hr, hs, rfl, hp⟩ := hstep
        exact (h r hr hs _ hp).trans ih
  exact fun i hi => Nat.lt_irrefl _ (lower hi)

variable [BEq I] [LawfulBEq I] {rs : List (Registration I V)}

theorem resolvedParent_shared {i : I} {q : Key I} (h : resolvedParent rs ⟨i, true⟩ = some q) :
    q = ⟨i, false⟩ := by
  obtain ⟨r, -, hk, hparent | hparent⟩ := parentAfter_eq_some (fun _ hr => hr) h
  · have hshared := congrArg Key.shared hk
    rw [Registration.key, (preferred_eq_some hparent).1] at hshared
    cases hshared
  · obtain ⟨hid, hshared⟩ := Key.mk.inj hk
    rw [Registration.plainParent, hshared, if_pos rfl, hid] at hparent
    exact (Option.some.inj hparent).symm

theorem resolvedParent_plain {i : I} {q : Key I} (h : resolvedParent rs ⟨i, false⟩ = some q) :
    NamesParent rs i q.id := by
  obtain ⟨r, hr, hk, hparent⟩ := parentAfter_eq_some (fun _ hr => hr) h
  obtain ⟨hid, hshared⟩ := Key.mk.inj hk
  refine ⟨r, hr, hshared, hid, ?_⟩
  rcases hparent with hparent | hparent
  · obtain ⟨-, p, hp, rfl, -⟩ := preferred_eq_some hparent
    exact hp
  · rw [Registration.plainParent, hshared, if_neg Bool.false_ne_true,
      Option.map_eq_some_iff] at hparent
    obtain ⟨p, hp, rfl⟩ := hparent
    exact hp

theorem rootValues_eq_valuesAt {k : Key I} (hroot : rootKey? rs = some k)
    (h : ∀ r ∈ rs, r.key = k → r.parentId = none) : rootValues rs = valuesAt rs k := by
  refine congrArg (List.map Registration.value) (List.filter_congr fun r hr => ?_)
  rw [isRootPart, hroot, Option.some_beq_some, BEq.comm]
  cases hk : r.key == k with
  | false => exact Bool.and_false _
  | true =>
      have hkey : r.key = k := eq_of_beq hk
      have hshared : r.shared = false := (congrArg Key.shared hkey).trans (rootKey?_plain hroot).1
      rw [r.isHeadless_iff.2 ⟨hshared, h r hr hkey⟩]
      rfl

theorem placedValues_root_ne_nil {k : Key I} (hroot : rootKey? rs = some k) :
    placedValues rs k ≠ [] ↔ ∃ r ∈ rs, r.key = k ∧ r.parentId ≠ none := by
  constructor
  · intro h
    obtain ⟨v, hv⟩ := List.exists_mem_of_ne_nil _ h
    obtain ⟨r, hr, -⟩ := List.mem_map.1 hv
    obtain ⟨hr, hcond⟩ := List.mem_filter.1 hr
    rw [Bool.and_eq_true_iff, Bool.not_eq_true'] at hcond
    have hkey : r.key = k := eq_of_beq hcond.1
    have hshared : r.shared = false := (congrArg Key.shared hkey).trans (rootKey?_plain hroot).1
    refine ⟨r, hr, hkey, fun hp => Bool.false_ne_true (hcond.2.symm.trans ?_)⟩
    rw [isRootPart, r.isHeadless_iff.2 ⟨hshared, hp⟩, hroot, hkey, Bool.true_and, beq_self_eq_true]
  · rintro ⟨r, hr, hk, hp⟩
    have hhead : r.isHeadless = false := Bool.eq_false_iff.2 fun he => hp (r.isHeadless_iff.1 he).2
    refine List.ne_nil_of_mem (List.mem_map_of_mem (List.mem_filter.2 ⟨hr, ?_⟩))
    rw [hk, beq_self_eq_true, isRootPart, hhead]
    rfl

/-- Nothing is lost to a second node of the root's key: there is none, or no key has that key as its
parent and the values without it come to the same. -/
def NothingLost (merge : V → V → V) (rs : List (Registration I V)) : Prop :=
  ∀ k, rootKey? rs = some k → (∃ r ∈ rs, r.key = k ∧ r.parentId ≠ none) →
    (∀ l, has rs l = true → resolvedParent rs l ≠ some k) ∧
      foldValues merge (rootValues rs) = foldValues merge (valuesAt rs k)

end Registered

namespace Builder

variable [BEq I] {policy : Policy I V} {merge : V → V → V}

/-- A node that a builder holds for a key: the root for its own key, and the node noted under the
key. -/
def Holds (b : Builder I V) (k : Key I) (n : NodeId) : Prop :=
  (b.rootKey = some k ∧ b.rootNode = some n) ∨ b.nodeOf.find? k = some n

/-- Each registered key has one node that the root reaches, and in it all values of the key. -/
def KeepsAll (merge : V → V → V) (rs : List (Registration I V)) (b : Builder I V)
    (root : NodeId) : Prop :=
  ∀ k, has rs k = true → ∃ n, (∀ n', b.graph.Reaches root n' ∧ b.Holds k n' ↔ n' = n) ∧
    b.graph.value n = foldValues merge (valuesAt rs k)

namespace Ready

variable {rs : List (Registration I V)} {b : Builder I V} {root : NodeId}
  (h : Ready merge rs b root)
include h

theorem holds_root_iff {k : Key I} : b.Holds k root ↔ rootKey? rs = some k := by
  constructor
  · rintro (⟨hroot, -⟩ | hn)
    · exact h.rootKey.symm.trans hroot
    · exact absurd rfl (h.apart k root hn)
  · exact fun hroot => .inl ⟨h.rootKey.trans hroot, h.rootNode⟩

theorem holds_iff_of_find? {k l : Key I} {n : NodeId} (hn : b.nodeOf.find? k = some n) :
    b.Holds l n ↔ l = k := by
  constructor
  · rintro (⟨-, hroot⟩ | hl)
    · exact absurd (Option.some.inj (hroot.symm.trans h.rootNode)) (h.apart k n hn)
    · exact h.injective l k n hl hn
  · rintro rfl
    exact .inr hn

variable [LawfulBEq I]

theorem has_of_holds {k : Key I} {n : NodeId} (hk : b.Holds k n) : has rs k = true := by
  rcases hk with ⟨hroot, -⟩ | hn
  · obtain ⟨-, r, hr, -, hkey⟩ := rootKey?_plain (h.rootKey.symm.trans hroot)
    exact has_iff.2 (List.mem_map.2 ⟨r, hr, hkey⟩)
  · exact h.has_of_find? hn

theorem mem_children {m n : NodeId} : n ∈ (b.graph.attachAll (b.links root)).children m ↔
    ∃ k, has rs k = true ∧ rootKey? rs ≠ some k ∧ b.nodeOf.find? k = some n ∧
      m = b.nodeAbove root (resolvedParent rs k) :=
  (Graph.mem_children_attachAll h.bare h.links_lt).trans h.mem_links

theorem exists_stray {k : Key I} (hroot : rootKey? rs = some k) :
    (∃ m, b.nodeOf.find? k = some m) ↔ ∃ r ∈ rs, r.key = k ∧ r.parentId ≠ none := by
  rw [← Option.isSome_iff_exists, h.find?_isSome, Bool.not_eq_true', List.isEmpty_eq_false_iff,
    placedValues_root_ne_nil hroot]

theorem not_reaches_stray {k : Key I} {n : NodeId} (hk : rootKey? rs = some k)
    (hn : b.nodeOf.find? k = some n) : ¬ (b.graph.attachAll (b.links root)).Reaches root n := by
  intro hreach
  cases hreach with
  | refl => exact h.apart k root hn rfl
  | tail _ hstep =>
      obtain ⟨l, -, hl, hln, -⟩ := h.mem_children.1 hstep
      exact hl (h.injective l k n hln hn ▸ hk)

theorem reaches_of_parent {k : Key I} {n : NodeId} (hne : rootKey? rs ≠ some k)
    (hn : b.nodeOf.find? k = some n)
    (hparent : ∀ q m, resolvedParent rs k = some q → b.nodeOf.find? q = some m →
      (b.graph.attachAll (b.links root)).Reaches root m) :
    (b.graph.attachAll (b.links root)).Reaches root n := by
  have hchild : n ∈ (b.graph.attachAll (b.links root)).children
      (b.nodeAbove root (resolvedParent rs k)) :=
    h.mem_children.2 ⟨k, h.has_of_find? hn, hne, hn, rfl⟩
  refine Relation.ReflTransGen.tail ?_ hchild
  rw [nodeAbove]
  cases hfind : (resolvedParent rs k).bind b.nodeOf.find? with
  | none => exact .refl
  | some m =>
      obtain ⟨q, hq, hm⟩ := Option.bind_eq_some_iff.1 hfind
      exact hparent q m hq hm

theorem reaches_node (acyclic : Acyclic rs)
    (hstray : ∀ k m l, rootKey? rs = some k → b.nodeOf.find? k = some m → has rs l = true →
      resolvedParent rs l ≠ some k)
    {k : Key I} {n : NodeId} (hne : rootKey? rs ≠ some k) (hn : b.nodeOf.find? k = some n) :
    (b.graph.attachAll (b.links root)).Reaches root n := by
  have hid {k n} (hn : b.nodeOf.find? k = some n) : k.id ∈ rs.map Registration.id := by
    obtain ⟨r, hr, hk⟩ := List.any_eq_true.1 (h.has_of_find? hn)
    exact List.mem_map.2 ⟨r, hr, congrArg Key.id (eq_of_beq hk)⟩
  have hparent {k q n m} (hn : b.nodeOf.find? k = some n) (hq : resolvedParent rs k = some q)
      (hm : b.nodeOf.find? q = some m) : rootKey? rs ≠ some q :=
    fun hroot => hstray q m k hroot hm (h.has_of_find? hn) hq
  refine acyclic.wellFoundedOn.induction (hid hn) (P := fun i => ∀ s n, rootKey? rs ≠ some ⟨i, s⟩ →
      b.nodeOf.find? ⟨i, s⟩ = some n → (b.graph.attachAll (b.links root)).Reaches root n)
    (fun i _ ih => ?_) k.shared n hne hn
  have plain : ∀ n, rootKey? rs ≠ some ⟨i, false⟩ → b.nodeOf.find? ⟨i, false⟩ = some n →
      (b.graph.attachAll (b.links root)).Reaches root n := by
    intro n hne hn
    refine h.reaches_of_parent hne hn fun q m hq hm => ?_
    exact ih q.id (hid hm) (.single (resolvedParent_plain hq)) q.shared m (hparent hn hq hm) hm
  intro s n hne hn
  cases s with
  | false => exact plain n hne hn
  | true =>
      refine h.reaches_of_parent hne hn fun q m hq hm => ?_
      have hroot := hparent hn hq hm
      rw [resolvedParent_shared hq] at hm hroot
      exact plain m hroot hm

theorem nothingLost_of_keepsAll (hself : ∀ r ∈ rs, r.parentId ≠ some r.id)
    (hkeeps : KeepsAll merge rs { b with graph := b.graph.attachAll (b.links root) } root) :
    NothingLost merge rs := by
  intro k hroot hnamed
  obtain ⟨m, hm⟩ := (h.exists_stray hroot).2 hnamed
  have hstray := h.not_reaches_stray hroot hm
  constructor
  · intro l hl hparent
    have hne : rootKey? rs ≠ some l := by
      intro hrl
      rw [hroot] at hrl
      exact parentAfter_ne_self (fun _ hr => hr) hself l (hparent.trans hrl)
    obtain ⟨n, hn, -⟩ := hkeeps l hl
    obtain ⟨hreach, ⟨hrl, -⟩ | hnl⟩ := (hn n).2 rfl
    · exact hne (h.rootKey.symm.trans hrl)
    · -- the only way to the node is through the second node of the root's key
      cases hreach with
      | refl => exact h.apart l root hnl rfl
      | tail hm' hstep =>
          obtain ⟨l', -, -, hnl', rfl⟩ := h.mem_children.1 hstep
          rw [h.injective l' l n hnl' hnl, hparent, nodeAbove, Option.bind_some, hm] at hm'
          exact hstray hm'
  · obtain ⟨-, r, hr, -, hk⟩ := rootKey?_plain hroot
    obtain ⟨n, hn, hvalue⟩ := hkeeps k (has_iff.2 (List.mem_map.2 ⟨r, hr, hk⟩))
    obtain rfl := (hn root).1 ⟨.refl, .inl ⟨h.rootKey.trans hroot, h.rootNode⟩⟩
    rw [← hvalue, ← h.rootValue]
    exact (Graph.value_attachAll _ _ _).symm

theorem keepsAll_of_nothingLost (acyclic : Acyclic rs) (hkept : NothingLost merge rs) :
    KeepsAll merge rs { b with graph := b.graph.attachAll (b.links root) } root := by
  intro k hk
  by_cases hroot : rootKey? rs = some k
  · refine ⟨root, fun n => ⟨?_, ?_⟩, (Graph.value_attachAll _ _ _).trans (h.rootValue.trans ?_)⟩
    · rintro ⟨hreach, ⟨-, hn⟩ | hn⟩
      · exact Option.some.inj (hn.symm.trans h.rootNode)
      · exact absurd hreach (h.not_reaches_stray hroot hn)
    · rintro rfl
      exact ⟨.refl, .inl ⟨h.rootKey.trans hroot, h.rootNode⟩⟩
    · by_cases hnamed : ∃ r ∈ rs, r.key = k ∧ r.parentId ≠ none
      · exact (hkept k hroot hnamed).2
      · push Not at hnamed
        rw [rootValues_eq_valuesAt hroot hnamed]
  · obtain ⟨n, hn⟩ := h.exists_node hk hroot
    have hreach := h.reaches_node acyclic
      (fun k' m l hr hm hl => (hkept k' hr ((h.exists_stray hr).1 ⟨m, hm⟩)).1 l hl) hroot hn
    refine ⟨n, fun n' => ⟨?_, ?_⟩, (Graph.value_attachAll _ _ _).trans ?_⟩
    · rintro ⟨-, ⟨hr, -⟩ | hn'⟩
      · exact absurd (h.rootKey.symm.trans hr) hroot
      · exact Option.some.inj (hn'.symm.trans hn)
    · rintro rfl
      exact ⟨hreach, .inr hn⟩
    · have hvalue := h.nodeValue k
      rw [hn, placedValues_of_ne hroot] at hvalue
      exact hvalue

end Ready

variable [LawfulBEq I]

/-- Without cycles building keeps everything exactly if nothing is lost to a second node of the
root's key. -/
theorem build_keepsAll_iff (total : policy.MergesBy merge) (calls : List (Call I V))
    (acyclic : Acyclic (Call.accepted calls)) (history : Delivery) :
    ∃ root after,
      (build policy).run.run (Call.makeAll policy calls ⟨{}, history⟩) = (.ok root, after) ∧
        (KeepsAll merge (Call.accepted calls) after.builder root ↔
          NothingLost merge (Call.accepted calls)) := by
  obtain ⟨root, b, d, hready, hrun⟩ := Call.run_build_makeAll total calls history
  refine ⟨root, _, hrun, ?_, ?_⟩
  · exact hready.nothingLost_of_keepsAll fun r => Call.ne_self_of_mem_accepted
  · exact hready.keepsAll_of_nothingLost acyclic

def branchedCalls : List (Call String Nat) :=
  [⟨some "a", some "b", none, some 1⟩, ⟨none, some "a", none, some 2⟩,
    ⟨some "a", some "b", some true, some 3⟩, ⟨some "b", some "c", none, some 4⟩,
    ⟨none, some "a", none, some 5⟩, ⟨some "b", some "c", none, some 6⟩]

theorem build_keepsAll_branched :
    (Policy.quiet (I := String) Nat.add).MergesBy Nat.add ∧ Acyclic (Call.accepted branchedCalls) ∧
      ∃ root after, (build (Policy.quiet Nat.add)).run.run
          (Call.makeAll (Policy.quiet Nat.add) branchedCalls ⟨{}, .empty⟩) = (.ok root, after) ∧
        (KeepsAll Nat.add (Call.accepted branchedCalls) after.builder root ↔
          NothingLost Nat.add (Call.accepted branchedCalls)) := by
  have acyclic : Acyclic (Call.accepted branchedCalls) :=
    acyclic_of_rank (fun i => if i = "a" then 0 else if i = "b" then 1 else 2) (by decide)
  exact ⟨Policy.mergesBy_quiet Nat.add, acyclic,
    build_keepsAll_iff (Policy.mergesBy_quiet Nat.add) branchedCalls acyclic .empty⟩

/-- Calls that name a parent for the root after it is known. -/
def reparentedRoot : List (Call String String) :=
  [⟨none, some "a", none, some "1"⟩, ⟨some "z", some "a", none, some "2"⟩]

/-- The value of the second call is lost. -/
theorem not_keepsAll_reparentedRoot :
    Acyclic (Call.accepted reparentedRoot) ∧
      ∃ root after, (build (Policy.quiet fun v w => v ++ "+" ++ w)).run.run
          (Call.makeAll (Policy.quiet fun v w => v ++ "+" ++ w) reparentedRoot ⟨{}, .empty⟩) =
            (.ok root, after) ∧
        after.builder.graph.value root = some "1" ∧
        ¬ KeepsAll (fun v w => v ++ "+" ++ w) (Call.accepted reparentedRoot) after.builder root := by
  have acyclic : Acyclic (Call.accepted reparentedRoot) :=
    acyclic_of_rank (fun i => if i = "a" then 1 else 0) (by decide)
  obtain ⟨root, b, d, hready, hrun⟩ := Call.run_build_makeAll
    (Policy.mergesBy_quiet fun v w : String => v ++ "+" ++ w) reparentedRoot .empty
  refine ⟨acyclic, root, _, hrun, ?_, fun hkeeps => ?_⟩
  · exact (Graph.value_attachAll _ _ _).trans hready.rootValue
  · have hlost := hready.nothingLost_of_keepsAll (fun r => Call.ne_self_of_mem_accepted) hkeeps
    have hvalue := (hlost ⟨"a", false⟩ rfl
      ⟨⟨some "z", "a", false, "2"⟩, .tail _ (.head _), rfl, by decide⟩).2
    exact absurd hvalue (by decide)

end Builder

end SpanForest
