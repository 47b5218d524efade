import SpanForest.Proofs.Tree.Reach
import SpanForest.Tree.Drawing

/-!
A tree that is outlined from a graph is drawn line by line as a stack of the graph's nodes would be
worked off. A tree reached in a graph always has an outline.
-/

namespace SpanForest

theorem mapM_eq_some_iff {α β : Type} {f : α → Option β} {xs : List α} {ys : List β} :
    xs.mapM f = some ys ↔ List.Forall₂ (fun x y => f x = some y) xs ys := by
  induction xs generalizing ys with
  | nil => simp [eq_comm]
  | cons x xs ih =>
      rw [List.mapM_cons]
      constructor
      · intro h
        simp only [Option.bind_eq_bind, Option.bind_eq_some_iff, Option.pure_def,
          Option.some.injEq] at h
        obtain ⟨y, hy, rest, hrest, rfl⟩ := h
        exact .cons hy (ih.1 hrest)
      · rintro (_ | ⟨hy, hrest⟩)
        simp [hy, ih.2 hrest]

theorem exists_forall₂_of_isSome {α β : Type} {f : α → Option β} {xs : List α}
    (h : ∀ x ∈ xs, (f x).isSome) : ∃ ys, List.Forall₂ (fun x y => f x = some y) xs ys := by
  induction xs with
  | nil => exact ⟨[], .nil⟩
  | cons x xs ih =>
      obtain ⟨y, hy⟩ := Option.isSome_iff_exists.1 (h x List.mem_cons_self)
      obtain ⟨ys, hys⟩ := ih fun x hx => h x (List.mem_cons_of_mem _ hx)
      exact ⟨y :: ys, .cons hy hys⟩

namespace Graph

variable {V : Type} {g : Graph V}

theorem outlineWithin_succ (levels : Nat) (n : NodeId) (t : Tree (Option V)) :
    g.outlineWithin (levels + 1) n = some t ↔
      ∃ below, List.Forall₂ (fun c t => g.outlineWithin levels c = some t) (g.children n) below ∧
        t = .node (g.value n) below := by
  simp only [outlineWithin, Option.bind_eq_bind, Option.bind_eq_some_iff, Option.pure_def,
    Option.some.injEq, mapM_eq_some_iff]
  exact exists_congr fun below => and_congr_right fun _ => eq_comm

theorem Enumerates.outlineWithin_isSome {root : NodeId} {visited : List NodeId}
    (he : g.Enumerates root visited) (hp : ∀ m n, n ∈ g.children m → g.parent n = some m)
    (hroot : ∀ m, root ∉ g.children m) (levels : Nat) {n : NodeId} (hn : n ∈ visited)
    (hlevels : visited.length ≤ visited.idxOf n + levels) : (g.outlineWithin levels n).isSome := by
  induction levels generalizing n with
  | zero =>
      have hlt := List.idxOf_lt_length_iff.2 hn
      omega
  | succ levels ih =>
      have hbelow : ∀ c ∈ g.children n, (g.outlineWithin levels c).isSome := by
        intro c hc
        have hvisited : c ∈ visited := (he.mem_iff c).2 (((he.mem_iff n).1 hn).tail hc)
        obtain ⟨before, after, hsplit, hnew⟩ := List.eq_append_cons_of_mem hvisited
        have hne : c ≠ root := fun h => hroot n (h ▸ hc)
        obtain ⟨m, hm, hparent⟩ := he.parent_first before c after hsplit hne
        have hmn : m = n := Option.some.inj (hparent.symm.trans (hp n c hc))
        have hc' : visited.idxOf c = before.length := by
          rw [hsplit, List.idxOf_append_of_notMem hnew, List.idxOf_cons_self, Nat.add_zero]
        have hn' : visited.idxOf n < before.length := by
          rw [hsplit, List.idxOf_append_of_mem (hmn ▸ hm)]
          exact List.idxOf_lt_length_iff.2 (hmn ▸ hm)
        exact ih hvisited (by omega)
      obtain ⟨below, h⟩ := exists_forall₂_of_isSome hbelow
      exact Option.isSome_iff_exists.2 ⟨_, (outlineWithin_succ levels n _).2 ⟨below, h, rfl⟩⟩

theorem WellLinked.outline_isSome {root : NodeId} (h : g.WellLinked root) :
    ∃ t, g.outline root = some t := by
  have he := h.enumerates_traverseTree
  refine Option.isSome_iff_exists.1 (he.outlineWithin_isSome h.parent h.branching.root_free _
    ((he.mem_iff root).2 .refl) ?_)
  exact Nat.le_trans (length_visit_le g g.size [root]) (Nat.le_add_left _ _)

end Graph

namespace Drawing

/-- The lines of values at their depths, in the order given. -/
def lines {α : Type} (describe : α → Except Fault Text) (indent : Text) :
    List (α × Nat) → Except Fault Text
  | [] => .ok []
  | (value, depth) :: rest =>
      match describe value with
      | .error e => .error e
      | .ok shown =>
          match lines describe indent rest with
          | .error e => .error e
          | .ok tail => .ok ((List.replicate depth indent).flatten ++ shown ++ .char '\n' :: tail)

variable {V : Type} {g : Graph V}

def Pictures (g : Graph V) (place : NodeId × Nat) (pending : Pending (Option V)) : Prop :=
  place.2 = pending.2 ∧ ∃ levels, g.outlineWithin levels place.1 = some pending.1

theorem pictures_children {n : NodeId} {depth levels : Nat} {below : List (Tree (Option V))}
    (h : List.Forall₂ (fun c t => g.outlineWithin levels c = some t) (g.children n) below) :
    List.Forall₂ (Pictures g) (g.childrenBelow (n, depth)) (below.map (·, depth + 1)) := by
  rw [Graph.childrenBelow, List.forall₂_map_left_iff, List.forall₂_map_right_iff]
  exact h.imp fun c t ht => ⟨rfl, levels, ht⟩

theorem drawStack_eq_lines (describe : Option V → Except Fault Text) (indent : Text)
    {limit : Nat} {places : List (NodeId × Nat)} {stack : List (Pending (Option V))}
    (h : List.Forall₂ (Pictures g) places stack) (hlimit : workLeft stack ≤ limit) :
    drawStack describe indent stack =
      lines describe indent ((g.descend limit places).map fun place => (g.value place.1, place.2)) := by
  -- each step takes the first node off both stacks and puts its children there
  induction limit generalizing places stack with
  | zero =>
      cases h with
      | nil => simp [Graph.descend, Worklist.workOff, drawStack, lines]
      | @cons _ pending _ _ _ _ =>
          have hpos := Tree.size_pos pending.1
          simp only [workLeft, List.map_cons, Tree.sizeList] at hlimit
          omega
  | succ limit ih =>
      cases h with
      | nil => simp [Graph.descend, Worklist.workOff, drawStack, lines]
      | @cons place pending places stack hhead htail =>
          obtain ⟨n, depth⟩ := place
          obtain ⟨t, depth'⟩ := pending
          obtain ⟨hdepth, levels, ht⟩ := hhead
          dsimp only at hdepth ht
          subst hdepth
          cases levels with
          | zero => simp [Graph.outlineWithin] at ht
          | succ levels =>
              obtain ⟨below, hbelow, rfl⟩ := (Graph.outlineWithin_succ levels n t).1 ht
              have hpictures : List.Forall₂ (Pictures g) (g.childrenBelow (n, depth) ++ places)
                  (push below (depth + 1) stack) :=
                List.rel_append (pictures_children hbelow) htail
              have hleft : workLeft (push below (depth + 1) stack) ≤ limit := by
                rw [workLeft_push]
                simp only [workLeft, List.map_cons, Tree.sizeList, Tree.size] at hlimit ⊢
                omega
              rw [drawStack, ih hpictures hleft]
              rfl

theorem draw_outline (describe : Option V → Except Fault Text) (indent : Text)
    {root : NodeId} {t : Tree (Option V)} (h : g.WellLinked root) (ht : g.outline root = some t) :
    draw describe indent t = lines describe indent
      ((g.descend g.size [(root, 0)]).map fun place => (g.value place.1, place.2)) := by
  have hpictures : List.Forall₂ (Pictures g) [(root, 0)] [(t, 0)] := .cons ⟨rfl, _, ht⟩ .nil
  rw [draw, drawStack_eq_lines describe indent hpictures (Nat.le_add_right _ g.size),
    h.descend_ends (Nat.le_add_left _ _)]

end Drawing

/-- What `root` reaches is a finite tree; a traversal by a queue and a drawing by a stack end on it
and meet each of its nodes once, after the node's parent. -/
structure Graph.WalksAsTree {V : Type} (g : Graph V) (root : NodeId) : Prop where
  isTree : g.IsTree root
  traverse_ends : ∀ limit, g.size ≤ limit → g.traverse root limit = g.traverseTree root
  traverse_enumerates : g.Enumerates root (g.traverseTree root)
  descend_ends : ∀ limit, g.size ≤ limit → g.descend limit [(root, 0)] = g.descend g.size [(root, 0)]
  descend_enumerates : g.Enumerates root ((g.descend g.size [(root, 0)]).map Prod.fst)
  drawn : ∃ t, g.outline root = some t ∧ ∀ describe indent, Drawing.draw describe indent t =
    Drawing.lines describe indent
      ((g.descend g.size [(root, 0)]).map fun place => (g.value place.1, place.2))

theorem Graph.WellLinked.walksAsTree {V : Type} {g : Graph V} {root : NodeId}
    (h : g.WellLinked root) : g.WalksAsTree root where
  isTree := h.isTree
  traverse_ends _ := h.traverse_ends
  traverse_enumerates := h.enumerates_traverseTree
  descend_ends _ := h.descend_ends
  descend_enumerates := h.enumerates_descend
  drawn := by
    obtain ⟨t, ht⟩ := h.outline_isSome
    exact ⟨t, ht, fun describe indent => Drawing.draw_outline describe indent h ht⟩

end SpanForest
