import SpanForest.Proofs.Running
import SpanForest.Proofs.Tree.Reach
import SpanForest.Tree.Builder

/-!
Builders under a map of ids and a map of values. Where the map of ids keeps equal ids equal and
others apart, and two policies agree under the maps, a builder of the images does in every run what
the first builder does, with the images of its nodes, and comes to the same fault if it comes to
one.
-/

namespace SpanForest

variable {I J V W : Type}

def Key.map (f : I → J) (k : Key I) : Key J := ⟨f k.id, k.shared⟩

def Registration.map (f : I → J) (g : V → W) (r : Registration I V) : Registration J W :=
  ⟨r.parentId.map f, f r.id, r.shared, g r.value⟩

theorem Registration.key_map (f : I → J) (g : V → W) (r : Registration I V) :
    (r.map f g).key = r.key.map f := rfl

theorem Registration.plainParent_map (f : I → J) (g : V → W) (r : Registration I V) :
    (r.map f g).plainParent = r.plainParent.map (Key.map f) := by
  obtain ⟨parentId, id, shared, value⟩ := r
  cases shared with
  | true => rfl
  | false => cases parentId <;> rfl

namespace Graph

theorem map_modify {α β : Type} {h : α → β} {change : α → α} {change' : β → β}
    (hchange : ∀ a, h (change a) = change' (h a)) (xs : Array α) (n : Nat) :
    (xs.modify n change).map h = (xs.map h).modify n change' := by
  refine Array.ext_getElem? fun i => ?_
  rw [Array.getElem?_map, Array.getElem?_modify, Array.getElem?_modify, Array.getElem?_map]
  split
  · cases xs[i]? with
    | none => rfl
    | some a => exact congrArg some (hchange a)
  · rfl

def map (g : V → W) (x : Graph V) : Graph W :=
  ⟨x.nodes.map fun n => ⟨n.value.map g, n.parent, n.children⟩⟩

variable (g : V → W) (x : Graph V)

theorem size_map : (x.map g).size = x.size := by
  simp [map, size]

theorem node?_map (n : NodeId) :
    (x.map g).node? n = (x.node? n).map fun n => ⟨n.value.map g, n.parent, n.children⟩ := by
  simp [map, node?]

theorem value_map (n : NodeId) : (x.map g).value n = (x.value n).map g := by
  cases h : x.node? n <;> simp [value, node?_map, h]

theorem parent_map (n : NodeId) : (x.map g).parent n = x.parent n := by
  cases h : x.node? n <;> simp [parent, node?_map, h]

theorem children_map (n : NodeId) : (x.map g).children n = x.children n := by
  cases h : x.node? n <;> simp [children, node?_map, h]

theorem reaches_map (m n : NodeId) : (x.map g).Reaches m n ↔ x.Reaches m n := by
  simp only [Reaches, children_map]

theorem WellLinked.map {x : Graph V} {root : NodeId} (h : x.WellLinked root) :
    (x.map g).WellLinked root where
  root_lt := (size_map g x).symm ▸ h.root_lt
  root_parent := (parent_map g x root).trans h.root_parent
  bounded m n hn := by
    rw [size_map]
    rw [children_map] at hn
    exact h.bounded m n hn
  parent m n hn := by
    rw [children_map] at hn
    rw [parent_map, h.parent m n hn]
  once m := by
    rw [children_map]
    exact h.once m

theorem map_add (value : Option V) : (x.add value).map g = (x.map g).add (value.map g) := by
  simp [map, add]

theorem map_setValue (n : NodeId) (v : V) :
    (x.setValue n v).map g = (x.map g).setValue n (g v) := by
  rw [map, setValue, map_modify]
  · rfl
  · exact fun _ => rfl

theorem map_attach (parent child : NodeId) :
    (x.attach parent child).map g = (x.map g).attach parent child := by
  rw [map, attach, map_modify, map_modify]
  · rfl
  · exact fun _ => rfl
  · exact fun _ => rfl

end Graph

namespace Table

variable {α β : Type}

/-- A table under a map of its keys and one of its values. -/
def image {κ μ : Type} (f : κ → μ) (g : α → β) (t : Table κ α) : Table μ β :=
  t.map fun entry => (f entry.1, g entry.2)

variable {κ μ : Type} [BEq κ] [BEq μ] {f : κ → μ} (same : ∀ k l, (f k == f l) = (k == l)) (g : α → β)
include same

theorem find?_image (k : κ) (t : Table κ α) : find? (f k) (t.image f g) = (find? k t).map g := by
  induction t with
  | nil => rfl
  | cons entry rest ih =>
      simp only [image, List.map_cons, find?, same] at ih ⊢
      split
      · rfl
      · exact ih

theorem image_put (k : κ) (a : α) (t : Table κ α) :
    (t.put k a).image f g = (t.image f g).put (f k) (g a) := by
  induction t with
  | nil => rfl
  | cons entry rest ih =>
      simp only [image, List.map_cons, put, same] at ih ⊢
      split
      · rfl
      · rw [List.map_cons, ih]

theorem image_erase (k : κ) (t : Table κ α) :
    (t.erase k).image f g = (t.image f g).erase (f k) := by
  simp only [image, erase, List.filter_map, Function.comp_def, same]

end Table

structure Policy.Image (f : I → J) (g : V → W) (p : Policy I V) (q : Policy J W) : Prop where
  traceId : q.traceId = p.traceId
  sink : q.sink = p.sink
  label : ∀ i, q.label (f i) = p.label i
  quoteValue : ∀ v, q.quoteValue (g v) = p.quoteValue v
  checkKey : ∀ i, q.checkKey (f i) = p.checkKey i
  merge : ∀ v w, q.merge (g v) (g w) = (p.merge v w).map (Option.map g)

def Builder.map (f : I → J) (g : V → W) (b : Builder I V) : Builder J W where
  entries := b.entries.map (Registration.map f g)
  rootKey := b.rootKey.map (Key.map f)
  rootNode := b.rootNode
  nodeOf := b.nodeOf.image (Key.map f) id
  parentOf := b.parentOf.image (Key.map f) (Option.map (Key.map f))
  graph := b.graph.map g

def Progress.map (f : I → J) (g : V → W) (p : Progress I V) : Progress J W :=
  ⟨p.builder.map f g, p.delivery⟩

def Building.Images {α β : Type} (f : I → J) (g : V → W) (h : α → β) (x : Building I V α)
    (y : Building J W β) : Prop :=
  ∀ p, y.run.run (p.map f g) = ((x.run.run p).1.map h, (x.run.run p).2.map f g)

namespace Building.Images

variable {α α' β β' : Type} {f : I → J} {g : V → W}

theorem of_pure {h : α → β} (a : α) : Images f g h (pure a) (pure (h a)) := fun _ => rfl

theorem of_throw {h : α → β} (e : Fault) : Images f g h (throw e) (throw e) := fun _ => rfl

theorem of_lift {h : α → β} {x : Except Fault α} {y : Except Fault β} (hxy : y = x.map h) :
    Images f g h (liftM x) (liftM y) := by
  intro p
  rw [hxy]
  cases x <;> rfl

theorem bind {h : α → β} {k : α' → β'} {x : Building I V α} {y : Building J W β}
    {c : α → Building I V α'} {d : β → Building J W β'} (hxy : Images f g h x y)
    (hcd : ∀ a, Images f g k (c a) (d (h a))) : Images f g k (x >>= c) (y >>= d) := by
  intro p
  have hp := hxy p
  cases hrun : x.run.run p with
  | mk outcome q =>
      rw [hrun] at hp
      cases outcome with
      | error e =>
          rw [run_bind_error hrun, run_bind_error hp]
          rfl
      | ok a =>
          rw [run_bind_ok hrun, run_bind_ok hp]
          exact hcd a q

theorem of_builder : Images f g (Builder.map f g) Building.builder Building.builder := fun _ => rfl

theorem of_setBuilder (b : Builder I V) :
    Images f g id (Building.setBuilder b) (Building.setBuilder (b.map f g)) := fun _ => rfl

end Building.Images

namespace Builder

open Building

variable {f : I → J} {g : V → W}

theorem map_empty : ({} : Builder I V).map f g = {} := by
  simp [map, Table.image, Graph.map]

section Data

variable [BEq I] [BEq J] (same : ∀ i j, (f i == f j) = (i == j))
include same

theorem same_key (k l : Key I) : (k.map f == l.map f) = (k == l) := by
  show (f k.id == f l.id && k.shared == l.shared) = (k.id == l.id && k.shared == l.shared)
  rw [same]

theorem same_rootKey (k? : Option (Key I)) (k : Key I) :
    (k?.map (Key.map f) == some (k.map f)) = (k? == some k) := by
  cases k? with
  | none => rfl
  | some l => exact same_key same l k

theorem find?_nodeOf_map (b : Builder I V) (k : Key I) :
    (b.map f g).nodeOf.find? (k.map f) = b.nodeOf.find? k := by
  rw [map, Table.find?_image (same_key same), Option.map_id, id]

theorem enter_map (b : Builder I V) (r : Registration I V) :
    (b.enter r).map f g = (b.map f g).enter (r.map f g) := by
  simp only [enter, map, List.map_append, List.map_singleton, Registration.plainParent_map,
    Registration.key_map, Table.image_put (same_key same)]

theorem parentFor_map (b : Builder I V) (r : Registration I V) :
    (b.map f g).parentFor (r.map f g) = (b.parentFor r).map (Key.map f) := by
  have hshared (p : I) : ((b.map f g).parentOf.find? ⟨f p, true⟩).isSome =
      (b.parentOf.find? ⟨p, true⟩).isSome := by
    have hfind := Table.find?_image (same_key same) (Option.map (Key.map f)) ⟨p, true⟩ b.parentOf
    exact (congrArg Option.isSome hfind).trans Option.isSome_map
  obtain ⟨parentId, id, shared, value⟩ := r
  cases shared with
  | true => rfl
  | false =>
      cases parentId with
      | none => rfl
      | some p => exact congrArg (fun s => some (Key.mk (f p) s)) (hshared p)

theorem notePreferred_map (b : Builder I V) (k : Key I) (parent : Option (Key I)) :
    (b.notePreferred k parent).map f g =
      (b.map f g).notePreferred (k.map f) (parent.map (Key.map f)) := by
  cases parent with
  | none => rfl
  | some p =>
      cases hs : p.shared with
      | false => simp [notePreferred, Key.map, hs]
      | true =>
          have hput := Table.image_put (same_key same) (Option.map (Key.map f)) k (some p) b.parentOf
          simp only [notePreferred, Option.map_some, Key.map, hs] at hput ⊢
          simp [map, hput]

theorem plant_map (b : Builder I V) (k : Key I) (v : V) :
    (b.plant k v).map f g = (b.map f g).plant (k.map f) (g v) := by
  simp [plant, map, Graph.size_map, Graph.map_add, Table.image_erase (same_key same)]

theorem place_map (b : Builder I V) (k : Key I) (v : V) :
    (b.place k v).map f g = (b.map f g).place (k.map f) (g v) := by
  simp [place, map, Graph.size_map, Graph.map_add, Table.image_put (same_key same)]

end Data

variable {p : Policy I V} {q : Policy J W} (image : p.Image f g q)

section Parts

include image

theorem images_report {message message' : Text} {spanId spanId' : Value}
    (hmessage : message' = message) (hspanId : spanId' = spanId) :
    Images f g id (Building.report p message spanId) (Building.report q message' spanId') := by
  intro progress
  have hrun : (Building.report q message' spanId').run.run (progress.map f g) = (.ok (),
      { progress.map f g with
        delivery := progress.delivery.offer q.sink ⟨.debug, message', q.traceId, spanId'⟩ }) := rfl
  rw [hrun, hmessage, hspanId, image.traceId, image.sink]
  rfl

theorem mergeInto_map (b : Builder I V) (old : Option V) (update : V) (n : NodeId) :
    mergeInto q (b.map f g) (old.map g) (g update) n =
      (mergeInto p b old update n).map (Builder.map f g) := by
  cases old with
  | none => simp [mergeInto, Except.map, map, Graph.map_setValue]
  | some old =>
      simp only [mergeInto, Option.map_some, image.merge]
      cases p.merge old update with
      | error e => rfl
      | ok merged =>
          cases merged with
          | none => rfl
          | some v => simp [Graph.replaceValue, Except.map, map, Graph.map_setValue]

theorem addChild_map (x : Graph V) (parent child : NodeId) :
    (x.map g).addChild q.quoteValue parent child =
      (x.addChild p.quoteValue parent child).map (Graph.map g) := by
  have hdescribe : (x.map g).describe q.quoteValue parent = x.describe p.quoteValue parent := by
    rw [Graph.describe, Graph.describe, Graph.children_map, Graph.value_map]
    cases x.value parent with
    | none => rfl
    | some v => simp only [Option.map_some, image.quoteValue]
  rw [Graph.addChild, Graph.addChild, hdescribe]
  split
  · rfl
  · exact congrArg Except.ok (Graph.map_attach g x parent child).symm

theorem checkParent_map (r : Registration I V) : checkParent q (r.map f g) = checkParent p r := by
  obtain ⟨parentId, id, shared, value⟩ := r
  cases shared with
  | true => rfl
  | false =>
      cases parentId with
      | none => rfl
      | some i => exact image.checkKey i

end Parts

variable [BEq I] [BEq J] (same : ∀ i j, (f i == f j) = (i == j))
include image same

theorem images_add (parentId spanId : Option I) (shared : Bool) (value : Option V) :
    Images f g id (add p parentId spanId shared value)
      (add q (parentId.map f) (spanId.map f) shared (value.map g)) := by
  cases spanId with
  | none => exact .of_throw _
  | some i =>
      have hself : (parentId.map f).any (· == f i) = parentId.any (· == i) := by
        cases parentId with
        | none => rfl
        | some p => exact same p i
      have hmessage : q.selfParentMessage (f i) = p.selfParentMessage i := by
        rw [Policy.selfParentMessage, Policy.selfParentMessage, image.traceId, image.label]
      simp only [add, Option.map_some, hself]
      split
      · exact (images_report image hmessage (image.label i)).bind fun _ => .of_pure false
      · cases value with
        | none => exact .of_throw _
        | some v =>
            have hcheck : q.checkKey (f i) = (p.checkKey i).map id := by
              rw [image.checkKey, Except.map_id, id]
            refine (Images.of_lift hcheck).bind fun _ => Images.of_builder.bind fun b => ?_
            have henter := enter_map (g := g) same b ⟨parentId, i, shared, v⟩
            refine Images.bind (h := id) ?_ fun _ => .of_pure true
            exact henter ▸ Images.of_setBuilder _

theorem images_materialize (r : Registration I V) :
    Images f g id (materialize p r) (materialize q (r.map f g)) := by
  refine Images.of_builder.bind fun b => ?_
  have hplace : (b.map f g).place (r.map f g).key (r.map f g).value =
      (b.place r.key r.value).map f g := (place_map same b r.key r.value).symm
  simp only [hplace]
  refine (Images.of_setBuilder _).bind fun _ => ?_
  rw [Registration.key_map, find?_nodeOf_map same]
  cases b.nodeOf.find? r.key with
  | none => exact .of_pure ()
  | some old =>
      refine Images.bind (Images.of_lift ?_) fun merged => .of_setBuilder merged
      have hvalue : ((b.place r.key r.value).map f g).graph.value old =
          ((b.place r.key r.value).graph.value old).map g := Graph.value_map g _ old
      have hsize : (b.map f g).graph.size = b.graph.size := Graph.size_map g b.graph
      rw [hvalue, hsize]
      exact mergeInto_map image _ _ _ _

theorem images_absorbHeadless (r : Registration I V) (root : NodeId) :
    Images f g id (absorbHeadless p r root) (absorbHeadless q (r.map f g) root) := by
  refine Images.of_builder.bind fun b => ?_
  have hsame : ((b.map f g).rootKey == some (r.map f g).key) = (b.rootKey == some r.key) :=
    same_rootKey same b.rootKey r.key
  simp only [hsame]
  split
  · refine Images.bind (Images.of_lift ?_) fun merged => .of_setBuilder merged
    have hvalue : (b.map f g).graph.value root = (b.graph.value root).map g :=
      Graph.value_map g b.graph root
    rw [hvalue]
    exact mergeInto_map image _ _ _ _
  · cases hkey : b.rootKey with
    | none =>
        have hkey' : (b.map f g).rootKey = none := congrArg (Option.map (Key.map f)) hkey
        rw [hkey']
        exact .of_throw _
    | some k =>
        have hkey' : (b.map f g).rootKey = some (k.map f) := congrArg (Option.map (Key.map f)) hkey
        have hmessage : q.headlessMessage (f k.id) (f r.id) = p.headlessMessage k.id r.id := by
          simp only [Policy.headlessMessage, image.traceId, image.label]
        rw [hkey']
        exact (images_report image hmessage (image.label r.id)).bind fun _ =>
          images_materialize image same r

theorem images_absorb (r : Registration I V) :
    Images f g id (absorb p r) (absorb q (r.map f g)) := by
  have hcheck : checkParent q (r.map f g) = (checkParent p r).map id := by
    rw [checkParent_map image, Except.map_id, id]
  refine (Images.of_lift hcheck).bind fun _ => Images.of_builder.bind fun b => ?_
  have hnote : (b.map f g).notePreferred (r.map f g).key ((b.parentFor r).map (Key.map f)) =
      (b.notePreferred r.key (b.parentFor r)).map f g :=
    (notePreferred_map same b r.key (b.parentFor r)).symm
  simp only [parentFor_map same, hnote]
  refine (Images.of_setBuilder _).bind fun _ => ?_
  have hroot : ((b.notePreferred r.key (b.parentFor r)).map f g).rootNode =
      (b.notePreferred r.key (b.parentFor r)).rootNode := rfl
  rw [hroot]
  cases b.parentFor r with
  | some parent => exact images_materialize image same r
  | none =>
      cases (b.notePreferred r.key none).rootNode with
      | none =>
          have hplant := plant_map (g := g) same (b.notePreferred r.key none) r.key r.value
          exact hplant ▸ Images.of_setBuilder ((b.notePreferred r.key none).plant r.key r.value)
      | some root => exact images_absorbHeadless image same r root

theorem images_absorbAll (rs : List (Registration I V)) :
    Images f g id (absorbAll p rs) (absorbAll q (rs.map (Registration.map f g))) := by
  induction rs with
  | nil => exact .of_pure ()
  | cons r rs ih => exact (images_absorb image same r).bind fun _ => ih

omit [BEq I] [BEq J] same in
theorem images_ensureRoot : Images f g id (ensureRoot p) (ensureRoot q) := by
  refine Images.of_builder.bind fun b => ?_
  have hroot : (b.map f g).rootNode = b.rootNode := rfl
  rw [hroot]
  cases b.rootNode with
  | some root => exact .of_pure root
  | none =>
      have hmessage : q.noRootMessage = p.noRootMessage := by
        rw [Policy.noRootMessage, Policy.noRootMessage, image.traceId]
      have hplant : (b.map f g).plantDummy = b.plantDummy.map f g := by
        simp [plantDummy, map, Graph.size_map, Graph.map_add]
      have hsize : (b.map f g).graph.size = b.graph.size := Graph.size_map g b.graph
      rw [hplant, hsize]
      exact (images_report image hmessage rfl).bind fun _ =>
        (Images.of_setBuilder _).bind fun _ => .of_pure _

theorem images_link (root : NodeId) (k : Key I) (parent : Option (Key I)) :
    Images f g id (link p root k parent) (link q root (k.map f) (parent.map (Key.map f))) := by
  refine Images.of_builder.bind fun b => ?_
  have hsame : ((b.map f g).rootKey == some (k.map f)) = (b.rootKey == some k) :=
    same_rootKey same b.rootKey k
  have habove : (parent.map (Key.map f)).bind (b.map f g).nodeOf.find? =
      parent.bind b.nodeOf.find? := by
    rw [Option.bind_map]
    exact Option.bind_congr fun l _ => find?_nodeOf_map same b l
  rw [hsame, find?_nodeOf_map same, habove]
  split
  · exact .of_pure ()
  · cases b.nodeOf.find? k with
    | none =>
        have htext : q.keyText (k.map f) = p.keyText k := by
          simp only [Policy.keyText, Key.map, image.label]
        rw [htext]
        exact .of_throw _
    | some n =>
        exact Images.bind (Images.of_lift (addChild_map image b.graph _ n))
          fun graph => .of_setBuilder { b with graph }

theorem images_linkAll (root : NodeId) (t : Table (Key I) (Option (Key I))) :
    Images f g id (linkAll p root t)
      (linkAll q root (t.image (Key.map f) (Option.map (Key.map f)))) := by
  induction t with
  | nil => exact .of_pure ()
  | cons entry t ih => exact (images_link image same root entry.1 entry.2).bind fun _ => ih

theorem images_build : Images f g id (build p) (build q) :=
  Images.of_builder.bind fun b => (images_absorbAll image same b.entries).bind fun _ =>
    (images_ensureRoot image).bind fun root => Images.of_builder.bind fun b =>
      (images_linkAll image same root b.parentOf).bind fun _ => .of_pure root

end Builder

end SpanForest
