import SpanForest.Proofs.Tree.Reach

/-!
Linking nodes that stand alone. Whatever the links, the children of a node are those linked to it,
in the order of the links; if no node is linked twice and the root never is, child links and parent
links agree.
-/

namespace SpanForest.Graph

variable {V : Type}

def Bare (g : Graph V) : Prop := ∀ n, g.parent n = none ∧ g.children n = []

theorem size_add (g : Graph V) (value : Option V) : (g.add value).size = g.size + 1 := by
  simp [add, size]

theorem node?_add (g : Graph V) (value : Option V) (n : NodeId) :
    (g.add value).node? n = if n = g.size then some ⟨value, none, []⟩ else g.node? n := by
  simp only [add, node?, size, Array.getElem?_push]
  rfl

theorem node?_setValue (g : Graph V) (m : NodeId) (v : V) (n : NodeId) :
    (g.setValue m v).node? n =
      if m = n then (g.node? n).map fun node => { node with value := some v } else g.node? n := by
  simp only [setValue, node?, Array.getElem?_modify]

theorem lt_size_of_value {g : Graph V} {n : NodeId} {v : V} (h : g.value n = some v) :
    n < g.size := by
  by_contra hn
  have hnone : g.node? n = none := Array.getElem?_eq_none (Nat.le_of_not_lt hn)
  simp [value, hnone] at h

theorem value_add (g : Graph V) (value : Option V) (n : NodeId) :
    (g.add value).value n = if n = g.size then value else g.value n := by
  simp only [Graph.value, node?_add]
  split <;> rfl

theorem value_setValue (g : Graph V) (m : NodeId) (v : V) (n : NodeId) :
    (g.setValue m v).value n = if m = n ∧ n < g.size then some v else g.value n := by
  by_cases hmn : m = n
  · subst hmn
    by_cases hm : m < g.size
    · have hsome : g.node? m = some g.nodes[m] := Array.getElem?_eq_getElem hm
      simp [value, node?_setValue, hsome, hm]
    · have hnone : g.node? m = none := Array.getElem?_eq_none (Nat.le_of_not_lt hm)
      simp [value, node?_setValue, hnone, hm]
  · simp [value, node?_setValue, hmn]

theorem Bare.add {g : Graph V} (h : g.Bare) (value : Option V) : (g.add value).Bare := by
  intro n
  by_cases hn : n = g.size
  · simp [parent, children, node?_add, hn]
  · have hbare := h n
    simp only [parent, children, node?_add, hn, if_false] at hbare ⊢
    exact hbare

theorem Bare.setValue {g : Graph V} (h : g.Bare) (m : NodeId) (v : V) : (g.setValue m v).Bare := by
  intro n
  have hbare := h n
  by_cases hmn : m = n
  · cases hnode : g.node? n <;> simp_all [parent, children, node?_setValue]
  · simp only [parent, children, node?_setValue, hmn, if_false] at hbare ⊢
    exact hbare

theorem node?_attach (g : Graph V) (p c n : NodeId) :
    (g.attach p c).node? n = (g.node? n).map fun node =>
      { node with
        parent := if c = n then some p else node.parent
        children := if p = n then node.children ++ [c] else node.children } := by
  simp only [attach, node?, Array.getElem?_modify]
  cases g.nodes[n]? <;> by_cases hc : c = n <;> by_cases hp : p = n <;> simp [hc, hp]

theorem value_attach (g : Graph V) (p c n : NodeId) : (g.attach p c).value n = g.value n := by
  simp only [value, node?_attach]
  cases g.node? n <;> rfl

theorem children_attach {g : Graph V} {p : NodeId} (hp : p < g.size) (c n : NodeId) :
    (g.attach p c).children n = g.children n ++ if p = n then [c] else [] := by
  by_cases hpn : p = n
  · subst hpn
    have hsome : g.node? p = some g.nodes[p] := Array.getElem?_eq_getElem hp
    simp [children, node?_attach, hsome]
  · cases hnode : g.node? n <;> simp [children, node?_attach, hnode, hpn]

theorem parent_attach {g : Graph V} {c : NodeId} (hc : c < g.size) (p n : NodeId) :
    (g.attach p c).parent n = if c = n then some p else g.parent n := by
  by_cases hcn : c = n
  · subst hcn
    have hsome : g.node? c = some g.nodes[c] := Array.getElem?_eq_getElem hc
    simp [parent, node?_attach, hsome]
  · cases hnode : g.node? n <;> simp [parent, node?_attach, hnode, hcn]

def attachAll (g : Graph V) (links : List (NodeId × NodeId)) : Graph V :=
  links.foldl (fun g link => g.attach link.1 link.2) g

theorem attachAll_cons (g : Graph V) (link : NodeId × NodeId) (links : List (NodeId × NodeId)) :
    g.attachAll (link :: links) = (g.attach link.1 link.2).attachAll links := rfl

theorem size_attachAll (g : Graph V) (links : List (NodeId × NodeId)) :
    (g.attachAll links).size = g.size := by
  induction links generalizing g with
  | nil => rfl
  | cons link links ih => rw [attachAll_cons, ih, size_attach]

theorem value_attachAll (g : Graph V) (links : List (NodeId × NodeId)) (n : NodeId) :
    (g.attachAll links).value n = g.value n := by
  induction links generalizing g with
  | nil => rfl
  | cons link links ih => rw [attachAll_cons, ih, value_attach]

theorem children_attachAll {g : Graph V} {links : List (NodeId × NodeId)}
    (h : ∀ link ∈ links, link.1 < g.size) (n : NodeId) :
    (g.attachAll links).children n =
      g.children n ++ (links.filter fun link => link.1 = n).map Prod.snd := by
  induction links generalizing g with
  | nil => simp [attachAll]
  | cons link links ih =>
      have hrest : ∀ l ∈ links, l.1 < (g.attach link.1 link.2).size := by
        intro l hl
        rw [size_attach]
        exact h l (List.mem_cons_of_mem _ hl)
      rw [attachAll_cons, ih hrest, children_attach (h link List.mem_cons_self)]
      by_cases hn : link.1 = n <;> simp [hn]

theorem parent_attachAll_of_notMem {g : Graph V} {links : List (NodeId × NodeId)}
    (h : ∀ link ∈ links, link.2 < g.size) {n : NodeId} (hn : n ∉ links.map Prod.snd) :
    (g.attachAll links).parent n = g.parent n := by
  induction links generalizing g with
  | nil => rfl
  | cons link links ih =>
      rw [List.map_cons, List.mem_cons, not_or] at hn
      have hrest : ∀ l ∈ links, l.2 < (g.attach link.1 link.2).size := by
        intro l hl
        rw [size_attach]
        exact h l (List.mem_cons_of_mem _ hl)
      rw [attachAll_cons, ih hrest hn.2, parent_attach (h link List.mem_cons_self),
        if_neg (Ne.symm hn.1)]

theorem parent_attachAll {g : Graph V} {links : List (NodeId × NodeId)}
    (h : ∀ link ∈ links, link.2 < g.size) (hnodup : (links.map Prod.snd).Nodup)
    {link : NodeId × NodeId} (hlink : link ∈ links) :
    (g.attachAll links).parent link.2 = some link.1 := by
  induction links generalizing g with
  | nil => cases hlink
  | cons first links ih =>
      rw [List.map_cons, List.nodup_cons] at hnodup
      have hrest : ∀ l ∈ links, l.2 < (g.attach first.1 first.2).size := by
        intro l hl
        rw [size_attach]
        exact h l (List.mem_cons_of_mem _ hl)
      rw [attachAll_cons]
      rcases List.mem_cons.1 hlink with rfl | hlink
      · rw [parent_attachAll_of_notMem hrest hnodup.1, parent_attach (h _ List.mem_cons_self), if_pos rfl]
      · exact ih hrest hnodup.2 hlink

section Linked

variable {g : Graph V} {links : List (NodeId × NodeId)} (hbare : g.Bare)
  (hlt : ∀ link ∈ links, link.1 < g.size ∧ link.2 < g.size)
include hbare hlt

theorem mem_children_attachAll {m n : NodeId} :
    n ∈ (g.attachAll links).children m ↔ (m, n) ∈ links := by
  rw [children_attachAll fun link hlink => (hlt link hlink).1, (hbare m).2]
  simp only [List.nil_append, List.mem_map, List.mem_filter, decide_eq_true_eq, Prod.exists,
    exists_eq_right]

theorem wellLinked_attachAll (hnodup : (links.map Prod.snd).Nodup) {root : NodeId}
    (hroot : root < g.size) (hfree : root ∉ links.map Prod.snd) :
    (g.attachAll links).WellLinked root where
  root_lt := by rwa [size_attachAll]
  root_parent := by
    rw [parent_attachAll_of_notMem (fun link hlink => (hlt link hlink).2) hfree, (hbare root).1]
  bounded m n hn := by
    rw [size_attachAll]
    exact (hlt (m, n) ((mem_children_attachAll hbare hlt).1 hn)).2
  parent m n hn := parent_attachAll (fun link hlink => (hlt link hlink).2) hnodup
    ((mem_children_attachAll hbare hlt).1 hn)
  once m := by
    rw [children_attachAll fun link hlink => (hlt link hlink).1, (hbare m).2, List.nil_append]
    exact hnodup.sublist (List.Sublist.map Prod.snd List.filter_sublist)

end Linked

end SpanForest.Graph
