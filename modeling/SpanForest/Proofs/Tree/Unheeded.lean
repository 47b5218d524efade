import SpanForest.Proofs.Diagnostic.Unheeded
import SpanForest.Tree.Builder

/-!
Building a tree does not heed the sink. From a given builder each operation comes to the same answer
or fault, leaves the same builder and reports the same, whatever the sink does. Nothing is asked of
ids, values and the merge function, which may fail.
-/

namespace SpanForest

variable {I V : Type}

def Policy.telling (p : Policy I V) (sink : Sink) : Policy I V := { p with sink }

abbrev UnheededBuilding {α : Type} (work : Sink → Building I V α) : Prop := Unheeded Progress.mk work

namespace Builder

open Unheeded

theorem unheeded_builder : UnheededBuilding fun _ => (Building.builder : Building I V _) :=
  fun b => ⟨.ok b, b, [], fun _ _ => rfl⟩

theorem unheeded_setBuilder (b : Builder I V) : UnheededBuilding fun _ => Building.setBuilder b :=
  fun _ => ⟨.ok (), b, [], fun _ _ => rfl⟩

variable (p : Policy I V)

theorem unheeded_report (message : Text) (spanId : Value) :
    UnheededBuilding fun sink => Building.report (p.telling sink) message spanId :=
  fun b => ⟨.ok (), b, [⟨.debug, message, p.traceId, spanId⟩], fun _ _ => rfl⟩

theorem unheeded_mergeInto (b : Builder I V) (old : Option V) (update : V) (n : NodeId) :
    UnheededBuilding fun sink =>
      liftM (mergeInto (p.telling sink) b old update n) >>= Building.setBuilder :=
  bind (of_lift (mergeInto p b old update n)) unheeded_setBuilder

variable [BEq I]

theorem unheeded_add (parentId id : Option I) (shared : Bool) (value : Option V) :
    UnheededBuilding fun sink => add (p.telling sink) parentId id shared value := by
  cases id with
  | none => exact of_throw .missingId
  | some i =>
      simp only [add]
      cases parentId.any (· == i) with
      | true => exact bind (unheeded_report p (p.selfParentMessage i) (p.label i)) fun _ => of_pure false
      | false =>
          cases value with
          | none => exact of_throw .missingValue
          | some v =>
              refine bind (of_lift (p.checkKey i)) fun _ => bind unheeded_builder fun b => ?_
              exact bind (unheeded_setBuilder _) fun _ => of_pure true

theorem unheeded_materialize (r : Registration I V) :
    UnheededBuilding fun sink => materialize (p.telling sink) r := by
  refine bind unheeded_builder fun b => bind (unheeded_setBuilder _) fun _ => ?_
  cases b.nodeOf.find? r.key with
  | none => exact of_pure ()
  | some old => exact unheeded_mergeInto p _ _ _ _

theorem unheeded_absorbHeadless (r : Registration I V) (root : NodeId) :
    UnheededBuilding fun sink => absorbHeadless (p.telling sink) r root := by
  refine bind unheeded_builder fun b => ?_
  cases b.rootKey == some r.key with
  | true => exact unheeded_mergeInto p _ _ _ _
  | false =>
      cases b.rootKey with
      | none => exact of_throw (.noField .null "id")
      | some rootKey =>
          exact bind (unheeded_report p (p.headlessMessage rootKey.id r.id) (p.label r.id)) fun _ =>
            unheeded_materialize p r

theorem unheeded_absorb (r : Registration I V) :
    UnheededBuilding fun sink => absorb (p.telling sink) r := by
  refine bind (of_lift (checkParent p r)) fun _ => bind unheeded_builder fun before =>
    bind (unheeded_setBuilder _) fun _ => ?_
  cases before.parentFor r with
  | some parent => exact unheeded_materialize p r
  | none =>
      cases (before.notePreferred r.key none).rootNode with
      | none => exact unheeded_setBuilder _
      | some root => exact unheeded_absorbHeadless p r root

theorem unheeded_absorbAll (rs : List (Registration I V)) :
    UnheededBuilding fun sink => absorbAll (p.telling sink) rs := by
  induction rs with
  | nil => exact of_pure ()
  | cons r rs ih => exact bind (unheeded_absorb p r) fun _ => ih

omit [BEq I] in
theorem unheeded_ensureRoot : UnheededBuilding fun sink => ensureRoot (p.telling sink) := by
  refine bind unheeded_builder fun b => ?_
  cases b.rootNode with
  | some root => exact of_pure root
  | none =>
      exact bind (unheeded_report p p.noRootMessage .null) fun _ =>
        bind (unheeded_setBuilder b.plantDummy) fun _ => of_pure b.graph.size

theorem unheeded_link (root : NodeId) (key : Key I) (parent : Option (Key I)) :
    UnheededBuilding fun sink => link (p.telling sink) root key parent := by
  refine bind unheeded_builder fun b => ?_
  cases b.rootKey == some key with
  | true => exact of_pure ()
  | false =>
      cases b.nodeOf.find? key with
      | none => exact of_throw (.unregistered (p.keyText key))
      | some n =>
          exact bind (of_lift (b.graph.addChild p.quoteValue _ n)) fun graph =>
            unheeded_setBuilder { b with graph }

theorem unheeded_linkAll (root : NodeId) (t : Table (Key I) (Option (Key I))) :
    UnheededBuilding fun sink => linkAll (p.telling sink) root t := by
  induction t with
  | nil => exact of_pure ()
  | cons entry t ih => exact bind (unheeded_link p root entry.1 entry.2) fun _ => ih

theorem unheeded_build : UnheededBuilding fun sink => build (p.telling sink) :=
  bind unheeded_builder fun b => bind (unheeded_absorbAll p b.entries) fun _ =>
    bind (unheeded_ensureRoot p) fun root => bind unheeded_builder fun b =>
      bind (unheeded_linkAll p root b.parentOf) fun _ => of_pure root

end Builder

end SpanForest
