import SpanForest.Proofs.Tree.Calls
import SpanForest.Proofs.Tree.Lines

/-!
Building never fails on account of what names what, and what its root reaches is a finite tree, also
where the registrations form cycles, name parents that are missing, or come without a parent more
than once.
-/

namespace SpanForest

variable {I V : Type}

/-- A policy that merges by a function and tells no one. -/
def Policy.quiet (merge : V → V → V) : Policy I V where
  traceId := .null
  merge := fun v w => .ok (some (merge v w))
  sink := .quiet
  label := fun _ => .null
  quoteValue := fun _ => []

theorem Policy.mergesBy_quiet (merge : V → V → V) : (Policy.quiet (I := I) merge).MergesBy merge :=
  ⟨fun _ => rfl, fun _ _ => rfl⟩

namespace Builder

variable [BEq I] [LawfulBEq I] {policy : Policy I V} {merge : V → V → V}

/-- Whatever is registered, the root that is built reaches a finite tree. -/
theorem build_walksAsTree (total : policy.MergesBy merge) (calls : List (Call I V))
    (history : Delivery) :
    ∃ root after,
      (build policy).run.run (Call.makeAll policy calls ⟨{}, history⟩) = (.ok root, after) ∧
        after.builder.graph.WalksAsTree root := by
  obtain ⟨root, b, d, hready, hrun⟩ := Call.run_build_makeAll total calls history
  exact ⟨root, _, hrun, hready.wellLinked.walksAsTree⟩

def tangledCalls : List (Call String Nat) :=
  [⟨some "a", some "a", none, some 0⟩, ⟨some "b", some "a", none, some 1⟩,
    ⟨some "a", some "b", some false, some 2⟩, ⟨none, some "r", none, some 3⟩,
    ⟨none, some "r", none, some 4⟩, ⟨none, some "s", none, some 5⟩,
    ⟨some "gone", some "x", some true, some 6⟩, ⟨none, none, none, some 7⟩]

theorem build_walksAsTree_tangled :
    (Policy.quiet (I := String) Nat.max).MergesBy Nat.max ∧
      ∃ root after, (build (Policy.quiet Nat.max)).run.run
          (Call.makeAll (Policy.quiet Nat.max) tangledCalls ⟨{}, .empty⟩) = (.ok root, after) ∧
        after.builder.graph.WalksAsTree root :=
  ⟨Policy.mergesBy_quiet Nat.max, build_walksAsTree (Policy.mergesBy_quiet Nat.max) tangledCalls .empty⟩

end Builder

end SpanForest
