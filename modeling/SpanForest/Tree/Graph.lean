import SpanForest.Fault

/-!
Nodes with a value, a parent link and an ordered list of children, held in a store under their numbers.
Children are added one by one; only a node's being its own child is refused, so a graph may have
longer cycles and a node may be a child more than once. The parent link names the last parent.
-/

namespace SpanForest

abbrev NodeId := Nat

structure Node (V : Type) where
  value : Option V
  parent : Option NodeId
  children : List NodeId

structure Graph (V : Type) where
  nodes : Array (Node V) := #[]

namespace Graph

variable {V : Type}

def node? (g : Graph V) (n : NodeId) : Option (Node V) := g.nodes[n]?

def value (g : Graph V) (n : NodeId) : Option V := (g.node? n).bind Node.value

def parent (g : Graph V) (n : NodeId) : Option NodeId := (g.node? n).bind Node.parent

def children (g : Graph V) (n : NodeId) : List NodeId := ((g.node? n).map Node.children).getD []

def size (g : Graph V) : Nat := g.nodes.size

def add (g : Graph V) (value : Option V) : Graph V := ⟨g.nodes.push ⟨value, none, []⟩⟩

theorem value_add_size (g : Graph V) (value : Option V) : (g.add value).value g.size = value := by
  simp [add, Graph.value, node?, size]

def setValue (g : Graph V) (n : NodeId) (v : V) : Graph V :=
  ⟨g.nodes.modify n fun node => { node with value := some v }⟩

def attach (g : Graph V) (parent child : NodeId) : Graph V :=
  ⟨(g.nodes.modify child fun node => { node with parent := some parent }).modify parent
    fun node => { node with children := node.children ++ [child] }⟩

theorem size_attach (g : Graph V) (parent child : NodeId) : (g.attach parent child).size = g.size := by
  simp [attach, size]

/-- How messages show a node: its value and the number of its children. -/
def describe (quoteValue : V → List Char) (g : Graph V) (n : NodeId) : String :=
  let value := match g.value n with
    | some v => String.ofList (quoteValue v)
    | none => "None"
  String.join ["Node(value=", value, ", children=", toString (g.children n).length, ")"]

def addChild (quoteValue : V → List Char) (g : Graph V) (parent child : NodeId) :
    Except Fault (Graph V) :=
  if child = parent then .error (.circular (g.describe quoteValue parent))
  else .ok (g.attach parent child)

def replaceValue (g : Graph V) (n : NodeId) (value : Option V) : Except Fault (Graph V) :=
  match value with
  | some v => .ok (g.setValue n v)
  | none => .error .missingValue

end Graph

end SpanForest
