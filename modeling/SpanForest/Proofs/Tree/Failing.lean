import SpanForest.Proofs.Tree.Rooted

/-!
When building fails. A way to merge may have no answer for two values; building fails if it comes to
merge such values, for want of a value, and in no other way, whatever names what.
-/

namespace SpanForest

open Registered

variable {I V : Type}

/-- Every id can be a key, and merging two values gives one or none. -/
structure Policy.AnswersBy (policy : Policy I V) (merge : V → V → Option V) : Prop where
  checkKey : ∀ i, policy.checkKey i = .ok ()
  merge_eq : ∀ v w, policy.merge v w = .ok (merge v w)

/-- What values come to if each is merged into what those before it came to. -/
def running (merge : V → V → Option V) : List V → Option V
  | [] => none
  | v :: rest => rest.foldlM merge v

def filled (merge : V → V → Option V) (v w : V) : V := (merge v w).getD v

variable {policy : Policy I V} {merge : V → V → Option V}

theorem running_append_singleton {vs : List V} {w : V}
    (h : running merge vs = foldValues (filled merge) vs)
    (hw : ∀ old, running merge vs = some old → merge old w ≠ none) :
    running merge (vs ++ [w]) = foldValues (filled merge) (vs ++ [w]) := by
  cases vs with
  | nil => rfl
  | cons v rest =>
      have hold : rest.foldlM merge v = some (rest.foldl (filled merge) v) := h
      obtain ⟨new, hnew⟩ := Option.ne_none_iff_exists'.1 (hw _ hold)
      rw [foldValues_append_singleton, ← h, List.cons_append, running, List.foldlM_append, hold]
      simp [running, hold, filled, hnew]

theorem Policy.AnswersBy.merge_filled_iff (answers : policy.AnswersBy merge) (old w : V) :
    policy.merge old w = .ok (some (filled merge old w)) ↔ merge old w ≠ none := by
  rw [answers.merge_eq]
  cases hmerge : merge old w <;> simp [filled, hmerge]

theorem Builder.mergeInto_error {old update : V} (hfail : policy.merge old update = .ok none)
    (b : Builder I V) (n : NodeId) :
    mergeInto policy b (some old) update n = .error .missingValue := by
  simp only [mergeInto, hfail, Graph.replaceValue]

variable [BEq I]

namespace Registered

/-- Building comes to merge `new` into `old`: a registration of `new` meets values that came to
`old`. -/
def Merges (merge : V → V → Option V) (rs : List (Registration I V)) (old new : V) : Prop :=
  ∃ before r after, rs = before ++ r :: after ∧ r.value = new ∧
    running merge (earlier before r) = some old

structure Unbroken (merge : V → V → Option V) (done : List (Registration I V)) : Prop where
  root : running merge (rootValues done) = foldValues (filled merge) (rootValues done)
  placed : ∀ k, running merge (placedValues done k) =
    foldValues (filled merge) (placedValues done k)

namespace Unbroken

variable {done : List (Registration I V)} (h : Unbroken merge done)
include h

theorem running_earlier (r : Registration I V) :
    running merge (earlier done r) = foldValues (filled merge) (earlier done r) := by
  rw [earlier]
  split
  · exact h.root
  · exact h.placed r.key

theorem append_singleton [LawfulBEq I] {r : Registration I V}
    (hr : ∀ old, running merge (earlier done r) = some old → merge old r.value ≠ none) :
    Unbroken merge (done ++ [r]) := by
  rw [earlier] at hr
  cases hpart : isRootPart (done ++ [r]) r with
  | true =>
      rw [hpart, if_pos rfl] at hr
      refine ⟨?_, fun k => ?_⟩
      · rw [rootValues_append_singleton, hpart, if_pos rfl]
        exact running_append_singleton h.root hr
      · rw [placedValues_append_singleton, hpart, Bool.not_true, Bool.and_false,
          if_neg Bool.false_ne_true, List.append_nil]
        exact h.placed k
  | false =>
      rw [hpart, if_neg Bool.false_ne_true] at hr
      refine ⟨?_, fun k => ?_⟩
      · rw [rootValues_append_singleton, hpart, if_neg Bool.false_ne_true, List.append_nil]
        exact h.root
      · rw [placedValues_append_singleton, hpart, Bool.not_false, Bool.and_true]
        split
        · next hk =>
            rw [eq_of_beq hk] at hr
            exact running_append_singleton (h.placed k) hr
        · rw [List.append_nil]
          exact h.placed k

end Unbroken

end Registered

theorem Policy.AnswersBy.mergesAlong_iff [LawfulBEq I] (answers : policy.AnswersBy merge)
    {done rest : List (Registration I V)} (unbroken : Unbroken merge done) :
    policy.MergesAlong (filled merge) done rest ↔
      ∀ before r after, rest = before ++ r :: after → ∀ old,
        running merge (earlier (done ++ before) r) = some old → merge old r.value ≠ none := by
  induction rest generalizing done with
  | nil => simp [Policy.MergesAlong]
  | cons r rest ih =>
      simp only [Policy.MergesAlong, Policy.MergesInto, ← unbroken.running_earlier,
        answers.merge_filled_iff]
      constructor
      · rintro ⟨hr, along⟩ before s after hsplit
        have hrest := (ih (unbroken.append_singleton hr)).1 along
        cases before with
        | nil =>
            obtain ⟨rfl, -⟩ := List.cons.inj hsplit
            rwa [List.append_nil]
        | cons first before =>
            obtain ⟨hfirst, htail⟩ := List.cons.inj hsplit
            rw [← hfirst, List.append_cons]
            exact hrest before s after htail
      · intro hmeets
        have hr := hmeets [] r rest rfl
        rw [List.append_nil] at hr
        refine ⟨hr, (ih (unbroken.append_singleton hr)).2 fun before s after hsplit => ?_⟩
        have hs := hmeets (r :: before) s after (congrArg (r :: ·) hsplit)
        rwa [List.append_cons] at hs

theorem Policy.AnswersBy.mergesAlong_nil_iff [LawfulBEq I] (answers : policy.AnswersBy merge)
    (rs : List (Registration I V)) : policy.MergesAlong (filled merge) [] rs ↔
      ∀ old new, Merges merge rs old new → merge old new ≠ none := by
  have unbroken : Unbroken merge ([] : List (Registration I V)) := ⟨rfl, fun _ => rfl⟩
  rw [answers.mergesAlong_iff unbroken]
  constructor
  · rintro hmeets old - ⟨before, r, after, hsplit, rfl, hold⟩
    exact hmeets before r after hsplit old hold
  · intro hmerges before r after hsplit old hold
    exact hmerges old r.value ⟨before, r, after, hsplit, rfl, hold⟩

namespace Builder

section

variable {b : Builder I V} {r : Registration I V} {old : V}
  (hfail : policy.merge old r.value = .ok none)
include hfail

theorem run_materialize_error (hold : (b.nodeOf.find? r.key).bind b.graph.value = some old)
    (d : Delivery) :
    ∃ after, (materialize policy r).run.run ⟨b, d⟩ = (.error .missingValue, after) := by
  obtain ⟨n, hn, hold⟩ := Option.bind_eq_some_iff.1 hold
  rw [materialize, run_bind_ok (Building.run_builder _), run_bind_ok (Building.run_setBuilder _ _),
    hn]
  dsimp only
  rw [value_place hold, mergeInto_error hfail]
  exact ⟨_, rfl⟩

theorem run_absorbHeadless_error (hb : b.Valued) (headless : r.isHeadless = true) {root : NodeId}
    (hroot : b.rootNode = some root) (hmet : b.metBy r = some old) (d : Delivery) :
    ∃ after, (absorbHeadless policy r root).run.run ⟨b, d⟩ = (.error .missingValue, after) := by
  obtain ⟨rootKey, hkey⟩ := Option.isSome_iff_exists.1 (hb.root root hroot).1
  rw [absorbHeadless, run_bind_ok (Building.run_builder _)]
  dsimp only
  by_cases hsame : (b.rootKey == some r.key) = true
  · rw [metBy_joined headless hroot hsame] at hmet
    rw [if_pos hsame, hmet, mergeInto_error hfail]
    exact ⟨_, rfl⟩
  · rw [metBy_placed fun _ => ⟨by rw [hroot]; rfl, Bool.eq_false_iff.2 hsame⟩] at hmet
    rw [if_neg hsame, hkey]
    dsimp only
    rw [run_bind_ok (Building.run_report _ _ _ _)]
    exact run_materialize_error hfail hmet _

theorem run_absorb_error (keyable : ∀ i, policy.checkKey i = .ok ()) (hb : b.Valued)
    (hmet : b.metBy r = some old) (d : Delivery) :
    ∃ after, (absorb policy r).run.run ⟨b, d⟩ = (.error .missingValue, after) := by
  rw [run_absorb_eq keyable]
  cases hparent : b.parentFor r with
  | some parent =>
      rw [metBy_placed fun headless => absurd headless (not_isHeadless hparent)] at hmet
      refine run_materialize_error hfail ?_ d
      rw [notePreferred_eq]
      exact hmet
  | none =>
      have headless := (b.parentFor_eq_none_iff r).1 hparent
      cases hroot : b.rootNode with
      | none =>
          simp only [metBy, headless, hroot] at hmet
          cases hmet
      | some root => exact run_absorbHeadless_error hfail hb headless hroot hmet d

end

variable [LawfulBEq I]

theorem run_absorbAll_error (answers : policy.AnswersBy merge) {rs done : List (Registration I V)}
    {b : Builder I V} (hnodes : NodesAfter (filled merge) done b) (hparents : ParentsAfter rs done b)
    {rest : List (Registration I V)} (hrest : ∀ r ∈ rest, r ∈ rs)
    (broken : ¬ policy.MergesAlong (filled merge) done rest) (d : Delivery) :
    ∃ after, (absorbAll policy rest).run.run ⟨b, d⟩ = (.error .missingValue, after) := by
  induction rest generalizing done b d with
  | nil => exact absurd trivial broken
  | cons r rest ih =>
      by_cases hmerge : policy.MergesInto (filled merge) (foldValues (filled merge) (earlier done r))
          r.value
      · obtain ⟨next, d', hrun, hnodes', hparents'⟩ := run_absorb_after answers.checkKey hnodes
          hparents (hrest r List.mem_cons_self) hmerge d
        obtain ⟨after, hafter⟩ := ih hnodes' hparents'
          (fun s hs => hrest s (List.mem_cons_of_mem r hs)) (fun along => broken ⟨hmerge, along⟩) d'
        exact ⟨after, by rw [absorbAll, run_bind_ok hrun, hafter]⟩
      · rw [Policy.MergesInto] at hmerge
        push Not at hmerge
        obtain ⟨old, hold, hne⟩ := hmerge
        have hfail : policy.merge old r.value = .ok none := by
          rw [ne_eq, answers.merge_filled_iff, not_not] at hne
          rw [answers.merge_eq, hne]
        obtain ⟨after, hrun⟩ := run_absorb_error hfail answers.checkKey hnodes.valued
          ((hnodes.metBy_eq r).trans hold) d
        exact ⟨after, by rw [absorbAll, run_bind_error hrun]⟩

theorem run_build_error (answers : policy.AnswersBy merge) {rs : List (Registration I V)}
    (broken : ¬ policy.MergesAlong (filled merge) [] rs) (d : Delivery) :
    ∃ after, (build policy).run.run ⟨entered rs, d⟩ = (.error .missingValue, after) := by
  obtain ⟨after, hrun⟩ := run_absorbAll_error answers (nodesAfter_entered rs)
    (parentsAfter_entered rs) (fun _ hr => hr) broken d
  refine ⟨after, ?_⟩
  rw [build, run_bind_ok (Building.run_builder _)]
  dsimp only
  rw [entries_entered, run_bind_error hrun]

/-- Building fails exactly if it comes to merge two values that do not merge, and then for want of a
value. -/
theorem build_fails_iff (answers : policy.AnswersBy merge) (calls : List (Call I V))
    (history : Delivery) :
    ((∃ fault after, (build policy).run.run (Call.makeAll policy calls ⟨{}, history⟩) =
        (.error fault, after)) ↔
      ∃ old new, Merges merge (Call.accepted calls) old new ∧ merge old new = none) ∧
      ∀ fault after, (build policy).run.run (Call.makeAll policy calls ⟨{}, history⟩) =
        (.error fault, after) → fault = .missingValue := by
  have hmerges := answers.mergesAlong_nil_iff (Call.accepted calls)
  -- either all merges on the way give values, or the first that gives none stops the build
  by_cases along : policy.MergesAlong (filled merge) [] (Call.accepted calls)
  · obtain ⟨root, b, d, -, hrun⟩ := Call.run_build_makeAll_along answers.checkKey along history
    have hok fault after : (build policy).run.run (Call.makeAll policy calls ⟨{}, history⟩) ≠
        (.error fault, after) := by
      rw [hrun]
      exact fun heq => by cases heq
    refine ⟨iff_of_false (fun ⟨fault, after, hfail⟩ => hok fault after hfail) ?_,
      fun fault after hfail => absurd hfail (hok fault after)⟩
    rintro ⟨old, new, hmet, hnone⟩
    exact hmerges.1 along old new hmet hnone
  · obtain ⟨after, hrun⟩ :=
      run_build_error answers along (Call.makeAll policy calls ⟨{}, history⟩).delivery
    rw [← Call.makeAll_new answers.checkKey] at hrun
    refine ⟨iff_of_true ⟨_, after, hrun⟩ ?_, fun fault after' hfail => ?_⟩
    · rw [hmerges] at along
      push Not at along
      exact along
    · rw [hrun] at hfail
      exact (Except.error.inj (Prod.mk.inj hfail).1).symm

def addEvenly (v w : Nat) : Option Nat := if (v + w) % 2 = 0 then some (v + w) else none

def evenly : Policy String Nat :=
  { Policy.quiet Nat.add with merge := fun v w => .ok (addEvenly v w) }

theorem build_fails_iff_tangled : evenly.AnswersBy addEvenly ∧
    Merges addEvenly (Call.accepted tangledCalls) 3 4 ∧ addEvenly 3 4 = none ∧
    ((∃ fault after, (build evenly).run.run (Call.makeAll evenly tangledCalls ⟨{}, .empty⟩) =
        (.error fault, after)) ↔
      ∃ old new, Merges addEvenly (Call.accepted tangledCalls) old new ∧ addEvenly old new = none) ∧
    ∀ fault after, (build evenly).run.run (Call.makeAll evenly tangledCalls ⟨{}, .empty⟩) =
      (.error fault, after) → fault = .missingValue := by
  have answers : evenly.AnswersBy addEvenly := ⟨fun _ => rfl, fun _ _ => rfl⟩
  have hmerges : Merges addEvenly (Call.accepted tangledCalls) 3 4 :=
    ⟨[⟨some "b", "a", false, 1⟩, ⟨some "a", "b", false, 2⟩, ⟨none, "r", false, 3⟩],
      ⟨none, "r", false, 4⟩, [⟨none, "s", false, 5⟩, ⟨some "gone", "x", true, 6⟩], rfl, rfl, rfl⟩
  exact ⟨answers, hmerges, rfl, build_fails_iff answers tangledCalls .empty⟩

end Builder

end SpanForest
