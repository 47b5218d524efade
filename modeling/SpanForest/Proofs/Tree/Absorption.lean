import SpanForest.Proofs.Running
import SpanForest.Proofs.Tree.Links
import SpanForest.Proofs.Tree.Registered
import SpanForest.Tree.Builder

/-!
What taking in one registration does, where its value merges with the one it meets: it plants the
root, merges a value into it, or gives a key a new node. Reports only add to the delivery.
-/

namespace SpanForest

variable {I V : Type}

/-- Nothing in the policy fails: every id can be a key, and any two values merge to one. -/
structure Policy.MergesBy (policy : Policy I V) (merge : V → V → V) : Prop where
  checkKey : ∀ i, policy.checkKey i = .ok ()
  merge_eq : ∀ v w, policy.merge v w = .ok (some (merge v w))

def Policy.MergesInto (policy : Policy I V) (merge : V → V → V) (met : Option V) (v : V) : Prop :=
  ∀ old, met = some old → policy.merge old v = .ok (some (merge old v))

theorem Graph.setValue_add (g : Graph V) (value : Option V) (w : V) :
    (g.add value).setValue g.size w = g.add (some w) := by
  simp only [add, setValue, size]
  congr 1
  ext1
  · simp
  · next i _ _ =>
    simp only [Array.getElem_modify, Array.getElem_push]
    grind

theorem Graph.addChild_ok {g : Graph V} {parent child : NodeId} (h : child ≠ parent)
    (quoteValue : V → List Char) : g.addChild quoteValue parent child = .ok (g.attach parent child) :=
  if_neg h

namespace Building

theorem run_builder (p : Progress I V) : builder.run.run p = (.ok p.builder, p) := rfl

theorem run_setBuilder (b : Builder I V) (p : Progress I V) :
    (setBuilder b).run.run p = (.ok (), { p with builder := b }) := rfl

theorem run_report (policy : Policy I V) (message : Text) (spanId : Value) (p : Progress I V) :
    (report policy message spanId).run.run p = (.ok (), { p with
      delivery := p.delivery.offer policy.sink ⟨.debug, message, policy.traceId, spanId⟩ }) := rfl

end Building

namespace Builder

variable {policy : Policy I V} {merge : V → V → V}

theorem checkParent_ok (keyable : ∀ i, policy.checkKey i = .ok ()) (r : Registration I V) :
    checkParent policy r = .ok () := by
  unfold checkParent
  split
  · exact keyable _
  · rfl

theorem mergeInto_ok {old update merged : V} (hmerge : policy.merge old update = .ok (some merged))
    (b : Builder I V) (n : NodeId) :
    mergeInto policy b (some old) update n = .ok { b with graph := b.graph.setValue n merged } := by
  simp only [mergeInto, hmerge, Graph.replaceValue]

variable [BEq I]

theorem notePreferred_eq (b : Builder I V) (key : Key I) (parent : Option (Key I)) :
    b.notePreferred key parent =
      { b with parentOf := (b.notePreferred key parent).parentOf } := by
  unfold notePreferred
  split
  · split <;> rfl
  · rfl

def mergedAt (merge : V → V → V) (b : Builder I V) (key : Key I) (v : V) : V :=
  match (b.nodeOf.find? key).bind b.graph.value with
  | some old => merge old v
  | none => v

structure Valued (b : Builder I V) : Prop where
  root : ∀ n, b.rootNode = some n → b.rootKey.isSome ∧ (b.graph.value n).isSome
  node : ∀ k n, b.nodeOf.find? k = some n → (b.graph.value n).isSome

def metBy (b : Builder I V) (r : Registration I V) : Option V :=
  match r.isHeadless, b.rootNode with
  | true, none => none
  | true, some root =>
      if b.rootKey == some r.key then b.graph.value root
      else (b.nodeOf.find? r.key).bind b.graph.value
  | false, _ => (b.nodeOf.find? r.key).bind b.graph.value

theorem metBy_joined {b : Builder I V} {r : Registration I V} (headless : r.isHeadless = true)
    {root : NodeId} (hroot : b.rootNode = some root) (hkey : (b.rootKey == some r.key) = true) :
    b.metBy r = b.graph.value root := by
  simp only [metBy, headless, hroot, hkey, if_true]

theorem metBy_placed {b : Builder I V} {r : Registration I V}
    (apart : r.isHeadless = true → b.rootNode.isSome ∧ (b.rootKey == some r.key) = false) :
    b.metBy r = (b.nodeOf.find? r.key).bind b.graph.value := by
  cases headless : r.isHeadless with
  | false => simp only [metBy, headless]
  | true =>
      obtain ⟨hroot, hkey⟩ := apart headless
      obtain ⟨root, hroot⟩ := Option.isSome_iff_exists.1 hroot
      simp only [metBy, headless, hroot, hkey, Bool.false_eq_true, if_false]

theorem value_place {b : Builder I V} {n : NodeId} {old : V} (hold : b.graph.value n = some old)
    (key : Key I) (v : V) : (b.place key v).graph.value n = some old := by
  have hne : n ≠ b.graph.size := Nat.ne_of_lt (Graph.lt_size_of_value hold)
  rw [place, Graph.value_add, if_neg hne, hold]

theorem run_materialize {b : Builder I V}
    (hb : ∀ k n, b.nodeOf.find? k = some n → (b.graph.value n).isSome) {r : Registration I V}
    (hmerge : policy.MergesInto merge ((b.nodeOf.find? r.key).bind b.graph.value) r.value)
    (d : Delivery) :
    (materialize policy r).run.run ⟨b, d⟩ =
      (.ok (), ⟨b.place r.key (b.mergedAt merge r.key r.value), d⟩) := by
  rw [materialize, run_bind_ok (Building.run_builder _),
    run_bind_ok (Building.run_setBuilder _ _)]
  cases hfind : b.nodeOf.find? r.key with
  | none =>
      simp only [mergedAt, hfind, Option.bind_none]
      rfl
  | some n =>
      obtain ⟨old, hold⟩ := Option.isSome_iff_exists.1 (hb _ _ hfind)
      have hmerged := hmerge old (by rw [hfind, Option.bind_some, hold])
      dsimp only
      rw [value_place hold, run_bind_ok (run_lift (mergeInto_ok hmerged _ _) _)]
      simp only [mergedAt, hfind, Option.bind_some, hold, place, Graph.setValue_add]
      rfl

inductive Absorbs (merge : V → V → V) (b : Builder I V) (r : Registration I V) :
    Builder I V → Prop where
  | planted (headless : r.isHeadless = true) (noRoot : b.rootNode = none) :
      Absorbs merge b r (b.plant r.key r.value)
  | joined (headless : r.isHeadless = true) {root : NodeId} (hroot : b.rootNode = some root)
      (hkey : (b.rootKey == some r.key) = true) {old : V} (hold : b.graph.value root = some old) :
      Absorbs merge b r { b with graph := b.graph.setValue root (merge old r.value) }
  | placed (apart : r.isHeadless = true → b.rootNode.isSome ∧ (b.rootKey == some r.key) = false) :
      Absorbs merge b r ((b.notePreferred r.key (b.parentFor r)).place r.key
        (b.mergedAt merge r.key r.value))

theorem parentFor_eq_none_iff (b : Builder I V) (r : Registration I V) :
    b.parentFor r = none ↔ r.isHeadless = true := by
  rw [r.isHeadless_iff]
  cases hs : r.shared <;> simp [parentFor, hs]

theorem not_isHeadless {b : Builder I V} {r : Registration I V} {parent : Key I}
    (h : b.parentFor r = some parent) : ¬ r.isHeadless = true := by
  rw [← b.parentFor_eq_none_iff r, h]
  exact Option.some_ne_none parent

theorem run_absorb_eq (keyable : ∀ i, policy.checkKey i = .ok ()) (b : Builder I V)
    (r : Registration I V) (d : Delivery) :
    (absorb policy r).run.run ⟨b, d⟩ =
      match b.parentFor r, b.rootNode with
      | some parent, _ => (materialize policy r).run.run ⟨b.notePreferred r.key (some parent), d⟩
      | none, none => (.ok (), ⟨b.plant r.key r.value, d⟩)
      | none, some root => (absorbHeadless policy r root).run.run ⟨b, d⟩ := by
  rw [absorb, run_bind_ok (run_lift (checkParent_ok keyable r) _),
    run_bind_ok (Building.run_builder _), run_bind_ok (Building.run_setBuilder _ _)]
  dsimp only
  cases b.parentFor r with
  | some parent => rfl
  | none =>
      rw [notePreferred]
      cases b.rootNode <;> rfl

section

variable {b : Builder I V} (hb : b.Valued) {r : Registration I V}
  (hmerge : policy.MergesInto merge (b.metBy r) r.value)
include hb hmerge

theorem run_absorbHeadless (headless : r.isHeadless = true) {root : NodeId}
    (hroot : b.rootNode = some root) (d : Delivery) :
    ∃ after d', (absorbHeadless policy r root).run.run ⟨b, d⟩ = (.ok (), ⟨after, d'⟩) ∧
      Absorbs merge b r after := by
  obtain ⟨hkey, hvalue⟩ := hb.root root hroot
  obtain ⟨rootKey, hkey⟩ := Option.isSome_iff_exists.1 hkey
  obtain ⟨old, hold⟩ := Option.isSome_iff_exists.1 hvalue
  rw [absorbHeadless, run_bind_ok (Building.run_builder _)]
  dsimp only
  by_cases hsame : (b.rootKey == some r.key) = true
  · have hmerged := hmerge old ((metBy_joined headless hroot hsame).trans hold)
    rw [if_pos hsame, hold, run_bind_ok (run_lift (mergeInto_ok hmerged _ _) _)]
    exact ⟨_, d, rfl, .joined headless hroot hsame hold⟩
  · have hnote : b.notePreferred r.key (b.parentFor r) = b := by
      rw [(b.parentFor_eq_none_iff r).2 headless]
      rfl
    have apart : r.isHeadless = true → b.rootNode.isSome ∧ (b.rootKey == some r.key) = false :=
      fun _ => ⟨by rw [hroot]; rfl, Bool.eq_false_iff.2 hsame⟩
    rw [metBy_placed apart] at hmerge
    rw [if_neg hsame, hkey]
    dsimp only
    rw [run_bind_ok (Building.run_report _ _ _ _), run_materialize hb.node hmerge]
    have hplaced : Absorbs merge b r _ := .placed apart
    rw [hnote] at hplaced
    exact ⟨_, _, rfl, hplaced⟩

theorem run_absorb (keyable : ∀ i, policy.checkKey i = .ok ()) (d : Delivery) :
    ∃ after d', (absorb policy r).run.run ⟨b, d⟩ = (.ok (), ⟨after, d'⟩) ∧
      Absorbs merge b r after := by
  rw [run_absorb_eq keyable]
  cases hparent : b.parentFor r with
  | some parent =>
      have apart : r.isHeadless = true → b.rootNode.isSome ∧ (b.rootKey == some r.key) = false :=
        fun headless => absurd headless (not_isHeadless hparent)
      rw [metBy_placed apart] at hmerge
      have hnode : ∀ k n, (b.notePreferred r.key (some parent)).nodeOf.find? k = some n →
          ((b.notePreferred r.key (some parent)).graph.value n).isSome := by
        rw [notePreferred_eq]
        exact hb.node
      have hmerge' : policy.MergesInto merge
          (((b.notePreferred r.key (some parent)).nodeOf.find? r.key).bind
            (b.notePreferred r.key (some parent)).graph.value) r.value := by
        rw [notePreferred_eq]
        exact hmerge
      refine ⟨_, d, run_materialize hnode hmerge' d, ?_⟩
      have hmerged : (b.notePreferred r.key (some parent)).mergedAt merge r.key r.value =
          b.mergedAt merge r.key r.value := by
        rw [notePreferred_eq]
        rfl
      rw [hmerged, ← hparent]
      exact .placed apart
  | none =>
      have headless := (b.parentFor_eq_none_iff r).1 hparent
      cases hroot : b.rootNode with
      | none => exact ⟨_, d, rfl, .planted headless hroot⟩
      | some root => exact run_absorbHeadless hb hmerge headless hroot d

end

end Builder

end SpanForest
