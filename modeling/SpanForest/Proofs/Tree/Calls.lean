import SpanForest.Proofs.Tree.Built

/-!
Calls that register values, made one after the other on a new builder. A call that is refused or
fails leaves the builder as it was, so building sees the accepted registrations and nothing else.
-/

namespace SpanForest

/-- A request to register a value. Of the flags, only a set and true one asks for the shared side.
-/
structure Call (I V : Type) where
  parentId : Option I
  id : Option I
  shared : Option Bool
  value : Option V

namespace Call

variable {I V : Type} [BEq I] {policy : Policy I V} {merge : V → V → V}

def make (policy : Policy I V) (c : Call I V) : Building I V Bool :=
  Builder.add policy c.parentId c.id (c.shared == some true) c.value

/-- What a call registers: nothing without an id or a value, or if it names itself as its parent. -/
def accepted? (c : Call I V) : Option (Registration I V) :=
  match c.id, c.value with
  | some i, some v =>
      if c.parentId.any (· == i) then none else some ⟨c.parentId, i, c.shared == some true, v⟩
  | _, _ => none

/-- Makes calls in order, whatever each of them comes to. -/
def makeAll (policy : Policy I V) (calls : List (Call I V)) (p : Progress I V) : Progress I V :=
  calls.foldl (fun p c => ((c.make policy).run.run p).2) p

theorem makeAll_cons (policy : Policy I V) (c : Call I V) (calls : List (Call I V))
    (p : Progress I V) :
    makeAll policy (c :: calls) p = makeAll policy calls ((c.make policy).run.run p).2 := rfl

/-- The registrations of the calls that are accepted. -/
def accepted (calls : List (Call I V)) : List (Registration I V) := calls.filterMap accepted?

inductive Outcome (policy : Policy I V) (c : Call I V) (p : Progress I V) :
    Except Fault Bool × Progress I V → Prop
  | noId (id : c.id = none) : Outcome policy c p (.error .missingId, p)
  | refused {i : I} (id : c.id = some i) (self : c.parentId.any (· == i) = true) (d : Delivery) :
      Outcome policy c p (.ok false, { p with delivery := d })
  | noValue {i : I} (id : c.id = some i) (other : c.parentId.any (· == i) = false)
      (value : c.value = none) : Outcome policy c p (.error .missingValue, p)
  | noKey {i : I} {v : V} {e : Fault} (id : c.id = some i) (other : c.parentId.any (· == i) = false)
      (value : c.value = some v) (key : policy.checkKey i = .error e) : Outcome policy c p (.error e, p)
  | entered {i : I} {v : V} (id : c.id = some i) (other : c.parentId.any (· == i) = false)
      (value : c.value = some v) (key : policy.checkKey i = .ok ()) :
      Outcome policy c p
        (.ok true, { p with builder := p.builder.enter ⟨c.parentId, i, c.shared == some true, v⟩ })

theorem outcome_make (policy : Policy I V) (c : Call I V) (p : Progress I V) :
    Outcome policy c p ((c.make policy).run.run p) := by
  obtain ⟨parentId, id, shared, value⟩ := c
  cases id with
  | none => exact .noId rfl
  | some i =>
      simp only [make, Builder.add]
      cases hself : parentId.any (· == i) with
      | true =>
          rw [if_pos rfl, run_bind_ok (Building.run_report _ _ _ p)]
          exact .refused rfl hself _
      | false =>
          rw [if_neg Bool.false_ne_true]
          cases value with
          | none => exact .noValue rfl hself rfl
          | some v =>
              cases hkey : policy.checkKey i with
              | error e => exact .noKey rfl hself rfl hkey
              | ok _ =>
                  rw [run_bind_ok (run_lift rfl p), run_bind_ok (Building.run_builder p),
                    run_bind_ok (Building.run_setBuilder _ p)]
                  exact .entered rfl hself rfl hkey

theorem accepted?_eq_some_iff {c : Call I V} {r : Registration I V} : c.accepted? = some r ↔
    ∃ i v, c.id = some i ∧ c.parentId.any (· == i) = false ∧ c.value = some v ∧
      r = ⟨c.parentId, i, c.shared == some true, v⟩ := by
  constructor
  · intro h
    unfold accepted? at h
    split at h
    · next i v hid hvalue =>
        split at h
        · cases h
        · next hother =>
            exact ⟨i, v, hid, Bool.eq_false_iff.2 hother, hvalue, (Option.some.inj h).symm⟩
    · cases h
  · rintro ⟨i, v, hid, hother, hvalue, rfl⟩
    simp [accepted?, hid, hother, hvalue]

namespace Outcome

variable {c : Call I V} {p : Progress I V} {run : Except Fault Bool × Progress I V}
  (h : Outcome policy c p run)
include h

theorem eq_true_iff :
    run.1 = .ok true ↔ ∃ r, c.accepted? = some r ∧ policy.checkKey r.id = .ok () := by
  cases h with
  | noId hid => simp [accepted?_eq_some_iff, hid]
  | refused hid hself => simp [accepted?_eq_some_iff, hid, hself]
  | noValue hid hother hvalue => simp [accepted?_eq_some_iff, hid, hvalue]
  | noKey hid hother hvalue hkey => simp [accepted?_eq_some_iff, hid, hother, hvalue, hkey]
  | entered hid hother hvalue hkey => simp [accepted?_eq_some_iff, hid, hother, hvalue, hkey]

theorem builder_eq (hother : run.1 ≠ .ok true) : run.2.builder = p.builder := by
  cases h with
  | entered => exact absurd rfl hother
  | _ => rfl

theorem eq_entered {r : Registration I V} (hr : c.accepted? = some r) (htrue : run.1 = .ok true) :
    run = (.ok true, { p with builder := p.builder.enter r }) := by
  cases h with
  | entered hid hother hvalue =>
      have haccepted := accepted?_eq_some_iff.2 ⟨_, _, hid, hother, hvalue, rfl⟩
      obtain rfl := Option.some.inj (hr.symm.trans haccepted)
      rfl
  | _ => cases htrue

end Outcome

theorem run_make_of_accepted (keyable : ∀ i, policy.checkKey i = .ok ()) {c : Call I V} {r : Registration I V}
    (h : c.accepted? = some r) (p : Progress I V) :
    (c.make policy).run.run p = (.ok true, { p with builder := p.builder.enter r }) := by
  have houtcome := outcome_make policy c p
  exact houtcome.eq_entered h (houtcome.eq_true_iff.2 ⟨r, h, keyable r.id⟩)

theorem run_make_of_not_accepted (policy : Policy I V) {c : Call I V} (h : c.accepted? = none)
    (p : Progress I V) :
    ((c.make policy).run.run p).1 ≠ .ok true ∧ ((c.make policy).run.run p).2.builder = p.builder := by
  have houtcome := outcome_make policy c p
  have hother : ((c.make policy).run.run p).1 ≠ .ok true := by
    intro htrue
    obtain ⟨r, hr, -⟩ := houtcome.eq_true_iff.1 htrue
    rw [h] at hr
    cases hr
  exact ⟨hother, houtcome.builder_eq hother⟩

theorem run_make_ok (total : policy.MergesBy merge) {c : Call I V} (hid : c.id.isSome)
    (hvalue : c.value.isSome) (p : Progress I V) :
    ∃ answer after, (c.make policy).run.run p = (.ok answer, after) := by
  have houtcome := outcome_make policy c p
  generalize (c.make policy).run.run p = run at houtcome
  cases houtcome with
  | noId hnone => simp [hnone] at hid
  | refused => exact ⟨_, _, rfl⟩
  | noValue _ _ hnone => simp [hnone] at hvalue
  | noKey _ _ _ hkey => simp [total.checkKey] at hkey
  | entered => exact ⟨_, _, rfl⟩

theorem builder_makeAll (keyable : ∀ i, policy.checkKey i = .ok ()) (calls : List (Call I V))
    (done : List (Registration I V)) (p : Progress I V) (hp : p.builder = Builder.entered done) :
    (makeAll policy calls p).builder = Builder.entered (done ++ accepted calls) := by
  induction calls generalizing done p with
  | nil => rw [accepted, List.filterMap_nil, List.append_nil, ← hp]; rfl
  | cons c calls ih =>
      cases hc : c.accepted? with
      | none =>
          rw [accepted, List.filterMap_cons_none hc]
          exact ih done _ ((run_make_of_not_accepted policy hc p).2.trans hp)
      | some r =>
          rw [accepted, List.filterMap_cons_some hc, List.append_cons]
          refine ih (done ++ [r]) _ ?_
          dsimp only
          rw [run_make_of_accepted keyable hc, hp, Builder.entered_append_singleton]

theorem ne_self_of_mem_accepted [LawfulBEq I] {calls : List (Call I V)} {r : Registration I V}
    (hr : r ∈ accepted calls) : r.parentId ≠ some r.id := by
  obtain ⟨c, -, hc⟩ := List.mem_filterMap.1 hr
  obtain ⟨i, v, -, hother, -, rfl⟩ := accepted?_eq_some_iff.1 hc
  intro hparent
  dsimp only at hparent
  simp [hparent] at hother

theorem makeAll_new (keyable : ∀ i, policy.checkKey i = .ok ()) (calls : List (Call I V))
    (history : Delivery) : makeAll policy calls ⟨{}, history⟩ =
      ⟨Builder.entered (accepted calls), (makeAll policy calls ⟨{}, history⟩).delivery⟩ := by
  have hbuilder := builder_makeAll keyable calls [] ⟨{}, history⟩ rfl
  rw [List.nil_append] at hbuilder
  rw [← hbuilder]

theorem run_build_makeAll_along [LawfulBEq I] (keyable : ∀ i, policy.checkKey i = .ok ())
    {calls : List (Call I V)} (along : policy.MergesAlong merge [] (accepted calls))
    (history : Delivery) :
    ∃ root b d, Builder.Ready merge (accepted calls) b root ∧
      (Builder.build policy).run.run (makeAll policy calls ⟨{}, history⟩) =
        (.ok root, ⟨{ b with graph := b.graph.attachAll (b.links root) }, d⟩) := by
  rw [makeAll_new keyable]
  exact Builder.run_build keyable (fun r => ne_self_of_mem_accepted) along _

theorem run_build_makeAll [LawfulBEq I] (total : policy.MergesBy merge) (calls : List (Call I V))
    (history : Delivery) :
    ∃ root b d, Builder.Ready merge (accepted calls) b root ∧
      (Builder.build policy).run.run (makeAll policy calls ⟨{}, history⟩) =
        (.ok root, ⟨{ b with graph := b.graph.attachAll (b.links root) }, d⟩) :=
  run_build_makeAll_along total.checkKey (total.mergesAlong [] _) history

end Call

end SpanForest
