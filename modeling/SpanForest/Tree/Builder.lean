import SpanForest.Tree.Graph
import SpanForest.Tree.Registration

/-!
Building a tree from registrations that name their parents. An id may be registered on two sides,
plain and shared: the shared one is a child of the plain one, and children of the id prefer the
shared one. Whatever is wrong is repaired: the first registration without a parent is the root,
those under a parent that is not there and further ones without a parent go to the root, and a root
without a value stands in if there is none. Values under one key are merged. The members of a cycle
of parents keep their nodes, which the root does not reach.
-/

namespace SpanForest

/-- Keys have their nodes and their parents in the order in which they were first registered. -/
structure Builder (I V : Type) where
  entries : List (Registration I V) := []
  rootKey : Option (Key I) := none
  rootNode : Option NodeId := none
  nodeOf : Table (Key I) NodeId := []
  parentOf : Table (Key I) (Option (Key I)) := []
  graph : Graph V := {}

structure Progress (I V : Type) where
  builder : Builder I V
  delivery : Delivery

abbrev Building (I V α : Type) := ExceptT Fault (StateM (Progress I V)) α

namespace Building

variable {I V : Type}

def builder : Building I V (Builder I V) := return (← get).builder

def setBuilder (b : Builder I V) : Building I V Unit := modify fun p => { p with builder := b }

def report (policy : Policy I V) (message : Text) (spanId : Value) : Building I V Unit :=
  modify fun p =>
    { p with delivery := p.delivery.offer policy.sink ⟨.debug, message, policy.traceId, spanId⟩ }

end Building

namespace Builder

variable {I V : Type} [BEq I]

def enter (b : Builder I V) (r : Registration I V) : Builder I V :=
  { b with entries := b.entries ++ [r], parentOf := b.parentOf.put r.key r.plainParent }

/-- Registers a value at an id. A registration that names itself as its parent is refused, and the
answer is false; a missing id or value is a fault, and so is an id that cannot be a key. None of these
changes the builder. -/
def add (policy : Policy I V) (parentId id : Option I) (shared : Bool) (value : Option V) :
    Building I V Bool :=
  match id with
  | none => throw .missingId
  | some i =>
      if parentId.any (· == i) then do
        Building.report policy (policy.selfParentMessage i) (policy.label i)
        pure false
      else
        match value with
        | none => throw .missingValue
        | some v => do
            policy.checkKey i
            let b ← Building.builder
            Building.setBuilder (b.enter ⟨parentId, i, shared, v⟩)
            pure true

def parentFor (b : Builder I V) (r : Registration I V) : Option (Key I) :=
  if r.shared then some ⟨r.id, false⟩
  else r.parentId.map fun p => ⟨p, (b.parentOf.find? ⟨p, true⟩).isSome⟩

def notePreferred (b : Builder I V) (key : Key I) (parent : Option (Key I)) : Builder I V :=
  match parent with
  | some p => if p.shared then { b with parentOf := b.parentOf.put key (some p) } else b
  | none => b

def plant (b : Builder I V) (key : Key I) (value : V) : Builder I V :=
  { b with
    rootKey := some key
    rootNode := some b.graph.size
    parentOf := b.parentOf.erase key
    graph := b.graph.add (some value) }

def place (b : Builder I V) (key : Key I) (value : V) : Builder I V :=
  { b with nodeOf := b.nodeOf.put key b.graph.size, graph := b.graph.add (some value) }

def plantDummy (b : Builder I V) : Builder I V :=
  { b with rootNode := some b.graph.size, graph := b.graph.add none }

def mergeInto (policy : Policy I V) (b : Builder I V) (old : Option V) (update : V) (n : NodeId) :
    Except Fault (Builder I V) :=
  match old with
  | none => .ok { b with graph := b.graph.setValue n update }
  | some old =>
      match policy.merge old update with
      | .error e => .error e
      | .ok merged =>
          match b.graph.replaceValue n merged with
          | .error e => .error e
          | .ok graph => .ok { b with graph }

/-- A node for a registration that is not the root. An earlier value under its key is merged in. -/
def materialize (policy : Policy I V) (r : Registration I V) : Building I V Unit := do
  let b ← Building.builder
  let placed := b.place r.key r.value
  Building.setBuilder placed
  match b.nodeOf.find? r.key with
  | none => pure ()
  | some old =>
      let merged ← mergeInto policy placed (placed.graph.value old) r.value b.graph.size
      Building.setBuilder merged

/-- Takes in a registration without a parent while there is a root. -/
def absorbHeadless (policy : Policy I V) (r : Registration I V) (root : NodeId) :
    Building I V Unit := do
  let b ← Building.builder
  if b.rootKey == some r.key then
    let merged ← mergeInto policy b (b.graph.value root) r.value root
    Building.setBuilder merged
  else
    match b.rootKey with
    | none => throw (.noField .null "id")
    | some rootKey =>
        Building.report policy (policy.headlessMessage rootKey.id r.id) (policy.label r.id)
        materialize policy r

/-- The parent of a plain registration is looked up, which must be possible. -/
def checkParent (policy : Policy I V) (r : Registration I V) : Except Fault Unit :=
  match r.shared, r.parentId with
  | false, some p => policy.checkKey p
  | _, _ => .ok ()

def absorb (policy : Policy I V) (r : Registration I V) : Building I V Unit := do
  checkParent policy r
  let before ← Building.builder
  let parent := before.parentFor r
  let b := before.notePreferred r.key parent
  Building.setBuilder b
  match parent, b.rootNode with
  | some _, _ => materialize policy r
  | none, none => Building.setBuilder (b.plant r.key r.value)
  | none, some root => absorbHeadless policy r root

def absorbAll (policy : Policy I V) : List (Registration I V) → Building I V Unit
  | [] => pure ()
  | r :: rest => do
      absorb policy r
      absorbAll policy rest

def ensureRoot (policy : Policy I V) : Building I V NodeId := do
  let b ← Building.builder
  match b.rootNode with
  | some root => pure root
  | none =>
      Building.report policy policy.noRootMessage .null
      Building.setBuilder b.plantDummy
      pure b.graph.size

def link (policy : Policy I V) (root : NodeId) (key : Key I) (parent : Option (Key I)) :
    Building I V Unit := do
  let b ← Building.builder
  if b.rootKey == some key then pure ()
  else
    match b.nodeOf.find? key with
    | none => throw (.unregistered (policy.keyText key))
    | some n =>
        let above := (parent.bind b.nodeOf.find?).getD root
        let graph ← b.graph.addChild policy.quoteValue above n
        Building.setBuilder { b with graph }

def linkAll (policy : Policy I V) (root : NodeId) :
    Table (Key I) (Option (Key I)) → Building I V Unit
  | [] => pure ()
  | (key, parent) :: rest => do
      link policy root key parent
      linkAll policy root rest

def build (policy : Policy I V) : Building I V NodeId := do
  let b ← Building.builder
  absorbAll policy b.entries
  let root ← ensureRoot policy
  let b ← Building.builder
  linkAll policy root b.parentOf
  pure root

end Builder

end SpanForest
