import SpanForest.Tree.Graph

/-!
Finite trees of values. What can be reached in a graph from one of its nodes is such a tree if no path
comes back to where it was; a node that is a child twice appears twice. A path of distinct nodes is
not longer than the number of nodes, so that many levels are enough.
-/

namespace SpanForest

inductive Tree (α : Type) where
  | node (value : α) (children : List (Tree α))

namespace Tree

variable {α : Type}

mutual

def size : Tree α → Nat
  | node _ children => 1 + sizeList children

def sizeList : List (Tree α) → Nat
  | [] => 0
  | t :: rest => size t + sizeList rest

end

theorem size_pos (t : Tree α) : 0 < size t := by
  cases t with
  | node value children =>
      simp only [size]
      omega

theorem sizeList_append (ts us : List (Tree α)) : sizeList (ts ++ us) = sizeList ts + sizeList us := by
  induction ts with
  | nil => simp [sizeList]
  | cons t ts ih =>
      simp only [List.cons_append, sizeList, ih]
      omega

end Tree

namespace Graph

variable {V : Type}

/-- The tree below a node, if it has at most so many levels. -/
def outlineWithin (g : Graph V) : Nat → NodeId → Option (Tree (Option V))
  | 0, _ => none
  | levels + 1, n => do
      let children ← (g.children n).mapM (g.outlineWithin levels)
      pure (.node (g.value n) children)

def outline (g : Graph V) (root : NodeId) : Option (Tree (Option V)) :=
  g.outlineWithin g.size root

end Graph

end SpanForest
