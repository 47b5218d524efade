import SpanForest.Proofs.Tree.Kept

/-!
Which registration decides where a key's node hangs: of several under the key, the last that names a
parent with a shared side, or else the last of all. A node that the root reaches hangs below an id
exactly if that registration names the id, or else names nothing that is there, which leaves the
root.
-/

namespace SpanForest

variable {I V : Type} [BEq I]

theorem findSome?_eq_bind {α β : Type} (f : α → Option β) (as : List α) :
    as.findSome? f = (as.find? fun a => (f a).isSome).bind f := by
  induction as with
  | nil => rfl
  | cons a as ih =>
      rw [List.findSome?_cons, List.find?_cons]
      cases h : f a with
      | none => exact ih
      | some b => exact h.symm

namespace Registered

def decidingAt (rs : List (Registration I V)) (k : Key I) : Option (Registration I V) :=
  let own := rs.filter fun r => r.key == k
  (own.filter fun r => (preferred rs r).isSome).getLast?.or own.getLast?

theorem exists_decidingAt {rs : List (Registration I V)} {k : Key I} (h : has rs k = true) :
    ∃ r ∈ rs, (r.key == k) = true ∧ decidingAt rs k = some r := by
  have hmem {r} (hr : r ∈ rs.filter fun r => r.key == k) : r ∈ rs ∧ (r.key == k) = true :=
    List.mem_filter.1 hr
  rw [decidingAt, List.getLast?_filter]
  cases hfind : (rs.filter fun r => r.key == k).reverse.find? fun r => (preferred rs r).isSome with
  | some r =>
      obtain ⟨hr, hk⟩ := hmem (List.mem_reverse.1 (List.mem_of_find?_eq_some hfind))
      exact ⟨r, hr, hk, rfl⟩
  | none =>
      obtain ⟨r, hr, hk⟩ := List.any_eq_true.1 h
      have hne : (rs.filter fun r => r.key == k) ≠ [] :=
        List.ne_nil_of_mem (List.mem_filter.2 ⟨hr, hk⟩)
      obtain ⟨hr, hk⟩ := hmem (List.getLast_mem hne)
      exact ⟨_, hr, hk, List.getLast?_eq_some_getLast hne⟩

theorem resolvedParent_eq_bind (rs : List (Registration I V)) (k : Key I) :
    resolvedParent rs k = (decidingAt rs k).bind fun r => (preferred rs r).or r.plainParent := by
  rw [resolvedParent, parentAfter, decidingAt]
  generalize (rs.filter fun r => r.key == k) = own
  rw [List.getLast?_filterMap, List.getLast?_filter, findSome?_eq_bind]
  cases hfind : own.reverse.find? fun r => (preferred rs r).isSome with
  | none =>
      refine Option.bind_congr fun r hr => ?_
      have hnone := List.find?_eq_none.1 hfind r (List.mem_reverse.2 (List.mem_of_getLast? hr))
      rw [Option.not_isSome_iff_eq_none] at hnone
      rw [hnone, Option.none_or]
  | some r =>
      have hsome := List.find?_some hfind
      obtain ⟨q, hq⟩ := Option.isSome_iff_exists.1 hsome
      simp only [Option.bind_some, Option.some_or, hq]

theorem preferred_or_plainParent {rs : List (Registration I V)} {r : Registration I V}
    (h : r.shared = false) : (preferred rs r).or r.plainParent =
      r.parentId.map fun p => ⟨p, has rs ⟨p, true⟩⟩ := by
  cases hp : r.parentId with
  | none => simp [preferred, Registration.plainParent, h, hp]
  | some p =>
      cases hhas : has rs ⟨p, true⟩ <;>
        simp [preferred, Registration.plainParent, h, hp, hhas, Option.filter_some]

end Registered

open Registered

namespace Builder.Ready

variable [LawfulBEq I] {merge : V → V → V} {rs : List (Registration I V)} {b : Builder I V}
  {root : NodeId} (h : Ready merge rs b root)
include h

theorem holds_above_iff {i p : I} {r : Registration I V} (hr : r.shared = false)
    (hdeciding : decidingAt rs ⟨i, false⟩ = some r) (hp : ∃ shared, has rs ⟨p, shared⟩ = true) :
    (∃ shared, b.Holds ⟨p, shared⟩ (b.nodeAbove root (resolvedParent rs ⟨i, false⟩))) ↔
      r.parentId = some p ∨ (∃ shared, b.Holds ⟨p, shared⟩ root) ∧
        ∀ q ∈ r.parentId, ∀ shared, has rs ⟨q, shared⟩ = false := by
  rw [resolvedParent_eq_bind, hdeciding, Option.bind_some, preferred_or_plainParent hr, nodeAbove]
  cases hq : r.parentId with
  | none => simp
  | some q =>
      simp only [Option.map_some, Option.bind_some, Option.some.injEq, Option.mem_def, forall_eq']
      cases hfind : b.nodeOf.find? ⟨q, has rs ⟨q, true⟩⟩ with
      | some m =>
          simp only [Option.getD_some, h.holds_iff_of_find? hfind, Key.mk.injEq]
          constructor
          · rintro ⟨_, rfl, -⟩
            exact .inl rfl
          · rintro (rfl | ⟨-, hnone⟩)
            · exact ⟨_, rfl, rfl⟩
            · exact absurd (h.has_of_find? hfind) (Bool.eq_false_iff.1 (hnone _))
      | none =>
          -- without a node the id is the root's, or it is not there at all
          have hroot (hhas : has rs ⟨q, has rs ⟨q, true⟩⟩ = true) :
              rootKey? rs = some ⟨q, has rs ⟨q, true⟩⟩ := by
            by_contra hne
            obtain ⟨m, hm⟩ := h.exists_node hhas hne
            rw [hfind] at hm
            cases hm
          have hshared : has rs ⟨q, true⟩ = false := by
            rw [Bool.eq_false_iff]
            intro hhas
            rw [hhas] at hroot
            exact absurd (rootKey?_plain (hroot hhas)).1 (by simp)
          rw [hshared] at hroot
          simp only [Option.getD_none, h.holds_root_iff, Bool.forall_bool, hshared, and_true]
          cases hplain : has rs ⟨q, false⟩ with
          | true =>
              simp only [hroot hplain, Option.some.injEq, Key.mk.injEq, Bool.true_eq_false, and_false,
                or_false]
              constructor
              · rintro ⟨_, hp, -⟩
                exact hp
              · exact fun hp => ⟨_, hp, rfl⟩
          | false =>
              have hne : q ≠ p := by
                rintro rfl
                obtain ⟨shared, hhas⟩ := hp
                cases shared <;> simp_all
              simp only [hne, and_true, false_or]

end Builder.Ready

end SpanForest
