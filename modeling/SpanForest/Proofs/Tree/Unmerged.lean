import SpanForest.Proofs.Tree.Calls

/-!
Registrations of which no two have one key. Nothing is merged then, so a way to merge that fails
does no harm.
-/

namespace SpanForest

open Registered

variable {I V : Type} [BEq I] [LawfulBEq I] {policy : Policy I V}

theorem Policy.mergesAlong_of_nodup (merge : V → V → V) {done rest : List (Registration I V)}
    (distinct : ((done ++ rest).map Registration.key).Nodup) : policy.MergesAlong merge done rest := by
  induction rest generalizing done with
  | nil => trivial
  | cons r rest ih =>
      have hnew : has done r.key = false := by
        rw [← Bool.not_eq_true, has_iff]
        intro hmem
        rw [List.map_append, List.nodup_append] at distinct
        exact distinct.2.2 _ hmem _ List.mem_cons_self rfl
      rw [List.append_cons] at distinct
      refine ⟨fun old hold => ?_, ih distinct⟩
      rw [earlier_eq_nil hnew] at hold
      cases hold

theorem Call.run_build_makeAll_distinct (keyable : ∀ i, policy.checkKey i = .ok ())
    {calls : List (Call I V)} (distinct : ((accepted calls).map Registration.key).Nodup)
    (history : Delivery) :
    ∃ root b d, Builder.Ready (fun v _ => v) (accepted calls) b root ∧
      (Builder.build policy).run.run (makeAll policy calls ⟨{}, history⟩) =
        (.ok root, ⟨{ b with graph := b.graph.attachAll (b.links root) }, d⟩) :=
  run_build_makeAll_along keyable (Policy.mergesAlong_of_nodup _ distinct) history

end SpanForest
