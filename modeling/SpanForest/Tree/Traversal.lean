import SpanForest.Tree.Graph

/-!
Breadth-first order. A queue starts with one node; each node taken from its front is visited and puts
its children at the end. A graph with cycles is visited forever, so the number of visits is given.
-/

namespace SpanForest.Graph

variable {V : Type}

def visit (g : Graph V) : Nat → List NodeId → List NodeId
  | 0, _ => []
  | _ + 1, [] => []
  | limit + 1, n :: queue => n :: g.visit limit (queue ++ g.children n)

def traverse (g : Graph V) (start : NodeId) (limit : Nat) : List NodeId := g.visit limit [start]

theorem visit_zero (g : Graph V) (queue : List NodeId) : g.visit 0 queue = [] := rfl

theorem length_visit_le (g : Graph V) (limit : Nat) (queue : List NodeId) :
    (g.visit limit queue).length ≤ limit := by
  induction limit generalizing queue with
  | zero => simp [visit]
  | succ limit ih =>
      cases queue with
      | nil => simp [visit]
      | cons n queue => simpa [visit] using ih (queue ++ g.children n)

/-- The nodes at a distance from a node, once for each way to them. -/
def level (g : Graph V) (start : NodeId) : Nat → List NodeId
  | 0 => [start]
  | depth + 1 => (g.level start depth).flatMap g.children

/-- All nodes of a tree, each of which is visited once. -/
def traverseTree (g : Graph V) (root : NodeId) : List NodeId := g.traverse root g.size

end SpanForest.Graph
