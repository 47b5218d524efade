import SpanForest.Proofs.Tree.Rooted

/-!
Registering is atomic. A call that is refused or fails leaves the builder as it was, and after any
calls on a new builder the known parents are those that the entries give, which is what building
relies on when it looks up nodes and links them.
-/

namespace SpanForest

open Registered

variable {I V : Type} [BEq I]

/-- Known parents that are in step with the entries. -/
structure Builder.InStep (b : Builder I V) : Prop where
  keys_eq : Table.keys b.parentOf = (b.entries.map Registration.key).eraseDups
  shared : ∀ i parent, b.parentOf.find? ⟨i, true⟩ = some parent → parent = some ⟨i, false⟩
  plain : ∀ i parent, b.parentOf.find? ⟨i, false⟩ = some parent →
    ∃ last, (b.entries.filter fun r => r.key == ⟨i, false⟩).getLast? = some last ∧
      parent = last.parentId.map fun p => ⟨p, false⟩
  ne_self : ∀ k, b.parentOf.find? k ≠ some (some k)

namespace Builder

variable [LawfulBEq I]

theorem exists_last_of_find?_entered {rs : List (Registration I V)} {k : Key I} {parent : Option (Key I)}
    (h : (entered rs).parentOf.find? k = some parent) :
    ∃ last, (rs.filter fun r => r.key == k).getLast? = some last ∧ last.key = k ∧
      parent = last.plainParent := by
  rw [find?_entered] at h
  split at h
  · next hhas =>
      obtain ⟨r, hr, hkey⟩ := List.any_eq_true.1 hhas
      have hne : rs.filter (fun r => r.key == k) ≠ [] :=
        List.ne_nil_of_mem (List.mem_filter.2 ⟨hr, hkey⟩)
      obtain ⟨last, hlast⟩ := Option.ne_none_iff_exists'.1 (mt List.getLast?_eq_none_iff.1 hne)
      have hmem := (List.mem_filter.1 (List.mem_of_getLast? hlast)).2
      rw [parentAfter_nil, hlast] at h
      exact ⟨last, hlast, eq_of_beq hmem, (Option.some.inj h).symm⟩
  · cases h

theorem inStep_entered {rs : List (Registration I V)} (hself : ∀ r ∈ rs, r.parentId ≠ some r.id) :
    (entered rs).InStep where
  keys_eq := by rw [keys_entered, entries_entered]
  shared i parent h := by
    obtain ⟨last, -, hkey, rfl⟩ := exists_last_of_find?_entered h
    obtain ⟨hid, hshared⟩ := Key.mk.inj hkey
    rw [Registration.plainParent, hshared, if_pos rfl, hid]
  plain i parent h := by
    obtain ⟨last, hlast, hkey, rfl⟩ := exists_last_of_find?_entered h
    obtain ⟨-, hshared⟩ := Key.mk.inj hkey
    rw [entries_entered]
    refine ⟨last, hlast, ?_⟩
    rw [Registration.plainParent, hshared, if_neg Bool.false_ne_true]
  ne_self k h := by
    rw [find?_entered] at h
    split at h
    · exact parentAfter_ne_self (by simp) hself k (Option.some.inj h)
    · cases h

def OnlyEntered (b : Builder I V) : Prop :=
  ∃ rs : List (Registration I V), b = entered rs ∧ ∀ r ∈ rs, r.parentId ≠ some r.id

omit [LawfulBEq I] in
theorem OnlyEntered.enter {b : Builder I V} (h : b.OnlyEntered) {r : Registration I V}
    (hself : r.parentId ≠ some r.id) : (b.enter r).OnlyEntered := by
  obtain ⟨rs, rfl, hrs⟩ := h
  refine ⟨rs ++ [r], (entered_append_singleton rs r).symm, ?_⟩
  rw [List.forall_mem_append, List.forall_mem_singleton]
  exact ⟨hrs, hself⟩

theorem OnlyEntered.inStep {b : Builder I V} (h : b.OnlyEntered) : b.InStep := by
  obtain ⟨rs, rfl, hrs⟩ := h
  exact inStep_entered hrs

end Builder

namespace Call

/-- A call that names its own id as its parent. -/
def NamesItself (c : Call I V) : Prop := c.parentId ≠ none ∧ c.parentId = c.id

variable [LawfulBEq I] {policy : Policy I V}

theorem namesItself_iff {c : Call I V} {i : I} (hid : c.id = some i) :
    c.NamesItself ↔ c.parentId.any (· == i) = true := by
  rw [NamesItself, hid]
  cases c.parentId with
  | none => simp
  | some p => simp

namespace Outcome

variable {c : Call I V} {p : Progress I V} {run : Except Fault Bool × Progress I V}
  (h : Outcome policy c p run)
include h

theorem eq_false_iff : run.1 = .ok false ↔ c.NamesItself := by
  cases h with
  | noId hid => simp [NamesItself, hid]
  | refused hid hself => simp [namesItself_iff hid, hself]
  | noValue hid hother => simp [namesItself_iff hid, hother]
  | noKey hid hother => simp [namesItself_iff hid, hother]
  | entered hid hother => simp [namesItself_iff hid, hother]

theorem eq_missing_iff (keyFaults : ∀ i e, policy.checkKey i = .error e → ∃ kind, e = .notAKey kind) :
    run.1 = .error .missingId ∨ run.1 = .error .missingValue ↔
      ¬ c.NamesItself ∧ (c.id = none ∨ c.value = none) := by
  cases h with
  | noId hid => simp [NamesItself, hid]
  | refused hid hself => simp [namesItself_iff hid, hself]
  | noValue hid hother hvalue => simp [namesItself_iff hid, hother, hvalue]
  | noKey hid hother hvalue hkey =>
      obtain ⟨kind, rfl⟩ := keyFaults _ _ hkey
      simp [hid, hvalue]
  | entered hid hother hvalue => simp [hid, hvalue]

theorem onlyEntered (hp : p.builder.OnlyEntered) : run.2.builder.OnlyEntered := by
  cases h with
  | entered hid hother =>
      refine hp.enter fun hparent => ?_
      dsimp only at hparent
      simp [hparent] at hother
  | _ => exact hp

end Outcome

theorem onlyEntered_makeAll {p : Progress I V} (h : p.builder.OnlyEntered) (calls : List (Call I V)) :
    (makeAll policy calls p).builder.OnlyEntered := by
  induction calls generalizing p with
  | nil => exact h
  | cons c calls ih => exact ih ((outcome_make policy c p).onlyEntered h)

/-- After any calls on a new builder one more call is refused exactly if it names itself, fails for want
of an id or a value exactly if it lacks one and is not refused, and answers true for all others whose id
can be a key; it then enters its registration, and else nothing. The known parents are in step with the
entries all along. -/
theorem make_atomic (keyFaults : ∀ i e, policy.checkKey i = .error e → ∃ kind, e = .notAKey kind)
    (calls : List (Call I V)) (history : Delivery) :
    (∀ c : Call I V, ∃ outcome after,
      (c.make policy).run.run (makeAll policy calls ⟨{}, history⟩) = (outcome, after) ∧
        (outcome = .ok false ↔ c.NamesItself) ∧
        (outcome = .error .missingId ∨ outcome = .error .missingValue ↔
          ¬ c.NamesItself ∧ (c.id = none ∨ c.value = none)) ∧
        (outcome ≠ .ok true → after.builder = (makeAll policy calls ⟨{}, history⟩).builder) ∧
        (outcome = .ok true ↔ ∃ r, c.accepted? = some r ∧ policy.checkKey r.id = .ok ()) ∧
        (∀ r, c.accepted? = some r → outcome = .ok true →
          after.builder = (makeAll policy calls ⟨{}, history⟩).builder.enter r)) ∧
      (makeAll policy calls ⟨{}, history⟩).builder.InStep := by
  constructor
  · intro c
    have houtcome := outcome_make policy c (makeAll policy calls ⟨{}, history⟩)
    refine ⟨_, _, rfl, houtcome.eq_false_iff, houtcome.eq_missing_iff keyFaults, houtcome.builder_eq,
      houtcome.eq_true_iff, fun r hr htrue => ?_⟩
    have hentered := houtcome.eq_entered hr htrue
    exact congrArg (fun run => run.2.builder) hentered
  · have hnew : (⟨{}, history⟩ : Progress I V).builder.OnlyEntered := ⟨[], rfl, nofun⟩
    exact (onlyEntered_makeAll hnew calls).inStep

theorem make_atomic_tangled :
    (∀ i e, (Policy.quiet (I := String) Nat.max).checkKey i = .error e → ∃ kind, e = .notAKey kind) ∧
      (∀ c : Call String Nat, ∃ outcome after,
        (c.make (Policy.quiet Nat.max)).run.run
            (makeAll (Policy.quiet Nat.max) Builder.tangledCalls ⟨{}, .empty⟩) = (outcome, after) ∧
          (outcome = .ok false ↔ c.NamesItself) ∧
          (outcome = .error .missingId ∨ outcome = .error .missingValue ↔
            ¬ c.NamesItself ∧ (c.id = none ∨ c.value = none)) ∧
          (outcome ≠ .ok true →
            after.builder = (makeAll (Policy.quiet Nat.max) Builder.tangledCalls ⟨{}, .empty⟩).builder) ∧
          (outcome = .ok true ↔
            ∃ r, c.accepted? = some r ∧ (Policy.quiet (I := String) Nat.max).checkKey r.id = .ok ()) ∧
          (∀ r, c.accepted? = some r → outcome = .ok true → after.builder =
            (makeAll (Policy.quiet Nat.max) Builder.tangledCalls ⟨{}, .empty⟩).builder.enter r)) ∧
      (makeAll (Policy.quiet Nat.max) Builder.tangledCalls ⟨{}, .empty⟩).builder.InStep := by
  have keyFaults : ∀ i e, (Policy.quiet (I := String) Nat.max).checkKey i = .error e →
      ∃ kind, e = .notAKey kind := fun _ _ h => by cases h
  exact ⟨keyFaults, make_atomic keyFaults Builder.tangledCalls .empty⟩

end Call

end SpanForest
