import Mathlib.Data.List.Nodup
import Mathlib.Data.List.Pairwise
import SpanForest.Proofs.Tree.Reach

/-!
Level order. Once whole levels have been visited the queue of a traversal holds the next one, so the
nodes come level by level, in any graph: a node that is reached in several ways comes once for each
of them, and below a cycle there is no end. Where no node is a child twice and the start is on no
cycle, each node has one level and the traversal ends.
-/

namespace SpanForest.Graph

open Worklist

variable {V : Type}

/-- The second node is met on the way down from the first. -/
def Below (g : Graph V) : NodeId → NodeId → Prop :=
  Relation.TransGen fun m n => n ∈ g.children m

/-- The first levels, one after the other. -/
def firstLevels (g : Graph V) (start : NodeId) (count : Nat) : List NodeId :=
  (List.range count).flatMap (g.level start)

variable {g : Graph V} {start : NodeId}

theorem firstLevels_succ (count : Nat) :
    g.firstLevels start (count + 1) = g.firstLevels start count ++ g.level start count := by
  simp [firstLevels, List.range_succ]

theorem level_eq_nil_of_le {depth deeper : Nat} (h : g.level start depth = []) (hle : depth ≤ deeper) :
    g.level start deeper = [] := by
  induction hle with
  | refl => exact h
  | step _ ih => rw [level, ih, List.flatMap_nil]

theorem le_length_firstLevels (count : Nat) :
    count ≤ (g.firstLevels start count).length ∨ g.level start count = [] := by
  induction count with
  | zero => exact .inl (Nat.zero_le _)
  | succ count ih =>
      by_cases hlevel : g.level start count = []
      · exact .inr (level_eq_nil_of_le hlevel (Nat.le_succ count))
      · have hpos := List.length_pos_of_ne_nil hlevel
        have hcount := ih.resolve_right hlevel
        rw [firstLevels_succ, List.length_append]
        exact .inl (by omega)

section Queue

variable (g)

theorem take_visit {k limit : Nat} (hk : k ≤ limit) (queue : List NodeId) :
    (g.visit limit queue).take k = g.visit k queue := by
  rw [visit_eq_workOff, visit_eq_workOff, take_workOff _ _ hk]

theorem visit_nil (limit : Nat) : g.visit limit [] = [] := by
  rw [visit_eq_workOff, workOff_nil]

theorem visit_append (front queue : List NodeId) (limit : Nat) :
    g.visit (front.length + limit) (front ++ queue) =
      front ++ g.visit limit (queue ++ front.flatMap g.children) := by
  -- the queue is served from the front, so children come behind all that waited before
  induction front generalizing queue with
  | nil => simp
  | cons n front ih =>
      rw [List.length_cons, Nat.add_right_comm, List.cons_append, visit, List.append_assoc, ih,
        List.flatMap_cons, List.append_assoc, List.cons_append]

variable (start)

theorem traverse_firstLevels (count more : Nat) :
    g.traverse start ((g.firstLevels start count).length + more) =
      g.firstLevels start count ++ g.visit more (g.level start count) := by
  induction count generalizing more with
  | zero => simp [firstLevels, traverse, level]
  | succ count ih =>
      have hlevel := g.visit_append (g.level start count) [] more
      rw [List.append_nil, List.nil_append] at hlevel
      rw [firstLevels_succ, List.length_append, Nat.add_assoc, ih, hlevel, List.append_assoc]
      rfl

theorem traverse_eq_take {limit count : Nat} (h : limit ≤ count) :
    g.traverse start limit = (g.firstLevels start count).take limit := by
  rcases Nat.le_total limit (g.firstLevels start count).length with hle | hle
  · have hall := g.traverse_firstLevels start count 0
    rw [visit_zero, List.append_nil, Nat.add_zero] at hall
    rw [← hall]
    exact (g.take_visit hle [start]).symm
  · have hlast : limit = (g.firstLevels start count).length ∨ g.level start count = [] :=
      (le_length_firstLevels count).imp_left fun hcount => by omega
    obtain ⟨more, rfl⟩ := Nat.exists_eq_add_of_le hle
    rw [traverse_firstLevels, List.take_of_length_le hle]
    rcases hlast with hlast | hnil
    · obtain rfl : more = 0 := by omega
      rw [visit_zero, List.append_nil]
    · rw [hnil, visit_nil, List.append_nil]

theorem traverse_of_level_eq_nil {limit count : Nat} (hnil : g.level start count = [])
    (hlimit : (g.firstLevels start count).length ≤ limit) :
    g.traverse start limit = g.firstLevels start count := by
  obtain ⟨more, rfl⟩ := Nat.exists_eq_add_of_le hlimit
  rw [traverse_firstLevels, hnil, visit_nil, List.append_nil]

end Queue

theorem reaches_of_mem_level {depth : Nat} {n : NodeId} (h : n ∈ g.level start depth) :
    g.Reaches start n := by
  induction depth generalizing n with
  | zero => exact List.mem_singleton.1 h ▸ .refl
  | succ depth ih =>
      obtain ⟨m, hm, hn⟩ := List.mem_flatMap.1 h
      exact (ih hm).tail hn

theorem reaches_iff_mem_level {n : NodeId} :
    g.Reaches start n ↔ ∃ depth, n ∈ g.level start depth := by
  refine ⟨fun hreach => ?_, fun ⟨_, h⟩ => reaches_of_mem_level h⟩
  induction hreach with
  | refl => exact ⟨0, List.mem_singleton_self start⟩
  | tail _ hchild ih =>
      obtain ⟨depth, hm⟩ := ih
      exact ⟨depth + 1, List.mem_flatMap.2 ⟨_, hm, hchild⟩⟩

theorem level_ne_nil_of_cycle {n : NodeId} (hreach : g.Reaches start n) (hcycle : g.Below n n)
    (depth : Nat) : ∃ m ∈ g.level start depth, g.Reaches m n := by
  induction depth with
  | zero => exact ⟨start, List.mem_singleton_self start, hreach⟩
  | succ depth ih =>
      obtain ⟨m, hm, hmn⟩ := ih
      have hbelow : g.Below m n := .trans_right hmn hcycle
      obtain ⟨c, hc, hcn⟩ := Relation.TransGen.head'_iff.1 hbelow
      exact ⟨c, List.mem_flatMap.2 ⟨m, hm, hc⟩, hcn⟩

theorem length_traverse_of_cycle {n : NodeId} (hreach : g.Reaches start n) (hcycle : g.Below n n)
    (limit : Nat) : (g.traverse start limit).length = limit := by
  obtain ⟨m, hm, -⟩ := level_ne_nil_of_cycle hreach hcycle limit
  have hlength := (le_length_firstLevels limit).resolve_right (List.ne_nil_of_mem hm)
  rw [g.traverse_eq_take start (Nat.le_refl limit), List.length_take_of_le hlength]

/-- All lists of children, one after the other. -/
def childLists (g : Graph V) : List NodeId := (List.range g.size).flatMap g.children

theorem lt_size_of_mem_children {m n : NodeId} (h : n ∈ g.children m) : m < g.size := by
  by_contra hm
  have hnone : g.node? m = none := Array.getElem?_eq_none (Nat.le_of_not_lt hm)
  simp [children, hnone] at h

theorem mem_childLists {m n : NodeId} (h : n ∈ g.children m) : n ∈ g.childLists :=
  List.mem_flatMap.2 ⟨m, List.mem_range.2 (lt_size_of_mem_children h), h⟩

/-- All nodes that are reached from a start, each once, and none before one that lies higher. -/
structure VisitsByDepth (g : Graph V) (start : NodeId) (visited : List NodeId) : Prop where
  nodup : visited.Nodup
  mem_iff : ∀ n, n ∈ visited ↔ g.Reaches start n
  one_level : ∀ n ∈ visited, ∃! depth, n ∈ g.level start depth
  by_depth : visited.Pairwise fun m n =>
    ∀ depth depth', m ∈ g.level start depth → n ∈ g.level start depth' → depth ≤ depth'

section Once

variable (once : g.childLists.Nodup)
include once

theorem nodup_children (m : NodeId) : (g.children m).Nodup := by
  by_cases hm : m < g.size
  · exact (List.nodup_flatMap.1 once).1 m (List.mem_range.2 hm)
  · rw [List.eq_nil_iff_forall_not_mem.2 fun n hn => hm (lt_size_of_mem_children hn)]
    exact .nil

theorem eq_of_mem_children {m m' n : NodeId} (h : n ∈ g.children m) (h' : n ∈ g.children m') :
    m = m' := by
  by_contra hne
  have hm := List.mem_range.2 (lt_size_of_mem_children h)
  have hm' := List.mem_range.2 (lt_size_of_mem_children h')
  have symm : Std.Symm (Function.onFun List.Disjoint g.children) :=
    ⟨fun _ _ hdisjoint _ h h' => hdisjoint h' h⟩
  exact (List.nodup_flatMap.1 once).2.forall hm hm' hne h h'

variable (acyclic : ¬ g.Below start start)
include acyclic

omit once in
theorem start_notMem_level (depth : Nat) : start ∉ g.level start (depth + 1) := by
  intro h
  obtain ⟨m, hm, hstart⟩ := List.mem_flatMap.1 h
  exact acyclic (.tail' (reaches_of_mem_level hm) hstart)

theorem depth_unique {depth depth' : Nat} {n : NodeId} (h : n ∈ g.level start depth)
    (h' : n ∈ g.level start depth') : depth = depth' := by
  induction depth generalizing depth' n with
  | zero =>
      cases depth' with
      | zero => rfl
      | succ depth' => exact absurd (List.mem_singleton.1 h ▸ h') (start_notMem_level acyclic depth')
  | succ depth ih =>
      cases depth' with
      | zero => exact absurd (List.mem_singleton.1 h' ▸ h) (start_notMem_level acyclic depth)
      | succ depth' =>
          obtain ⟨m, hm, hn⟩ := List.mem_flatMap.1 h
          obtain ⟨m', hm', hn'⟩ := List.mem_flatMap.1 h'
          obtain rfl := eq_of_mem_children once hn hn'
          rw [ih hm hm']

omit acyclic in
theorem nodup_level (depth : Nat) : (g.level start depth).Nodup := by
  induction depth with
  | zero => exact List.nodup_singleton start
  | succ depth ih =>
      refine List.nodup_flatMap.2 ⟨fun m _ => nodup_children once m, ih.imp fun hne n hm hm' => ?_⟩
      exact hne (eq_of_mem_children once hm hm')

theorem nodup_firstLevels (count : Nat) : (g.firstLevels start count).Nodup := by
  refine List.nodup_flatMap.2 ⟨fun depth _ => nodup_level once depth, ?_⟩
  refine List.nodup_range.imp fun hne n h h' => ?_
  exact hne (depth_unique once acyclic h h')

theorem exists_level_eq_nil : ∃ count, g.level start count = [] := by
  have hsubset : g.firstLevels start (g.childLists.length + 2) ⊆ start :: g.childLists := by
    intro n hn
    obtain ⟨depth, -, hdepth⟩ := List.mem_flatMap.1 hn
    cases depth with
    | zero => exact List.mem_singleton.1 hdepth ▸ List.mem_cons_self
    | succ depth =>
        obtain ⟨m, -, hchild⟩ := List.mem_flatMap.1 hdepth
        exact List.mem_cons_of_mem start (mem_childLists hchild)
  have hlength := (nodup_firstLevels once acyclic _).length_le_of_subset hsubset
  rw [List.length_cons] at hlength
  refine ⟨_, (le_length_firstLevels (g.childLists.length + 2)).resolve_left fun hle => ?_⟩
  omega

theorem visitsByDepth_firstLevels {count : Nat} (hnil : g.level start count = []) :
    g.VisitsByDepth start (g.firstLevels start count) where
  nodup := nodup_firstLevels once acyclic count
  mem_iff n := by
    constructor
    · intro hn
      obtain ⟨depth, -, hdepth⟩ := List.mem_flatMap.1 hn
      exact reaches_of_mem_level hdepth
    · intro hreach
      obtain ⟨depth, hdepth⟩ := reaches_iff_mem_level.1 hreach
      refine List.mem_flatMap.2 ⟨depth, List.mem_range.2 ?_, hdepth⟩
      by_contra hcount
      rw [level_eq_nil_of_le hnil (Nat.le_of_not_lt hcount)] at hdepth
      cases hdepth
  one_level n hn := by
    obtain ⟨depth, -, hdepth⟩ := List.mem_flatMap.1 hn
    exact ⟨depth, hdepth, fun _ h => depth_unique once acyclic h hdepth⟩
  by_depth := by
    refine List.pairwise_flatMap.2 ⟨fun depth _ => List.pairwise_of_forall_mem_list ?_, ?_⟩
    · intro m hm n hn i j hi hj
      exact Nat.le_of_eq ((depth_unique once acyclic hi hm).trans (depth_unique once acyclic hn hj))
    · refine List.pairwise_lt_range.imp fun hlt m hm n hn i j hi hj => ?_
      rw [depth_unique once acyclic hi hm, depth_unique once acyclic hj hn]
      exact Nat.le_of_lt hlt

end Once

/-- The first nodes of a traversal are the first of the levels put together. Above a cycle there is always
one more; where no node is a child twice and the start is on no cycle, there is an end, each node has
been visited once by then, and none before one that lies higher. -/
theorem traverse_levelOrder (g : Graph V) (start : NodeId) :
    (∀ limit count, limit ≤ count →
      g.traverse start limit = (g.firstLevels start count).take limit) ∧
    (∀ n, g.Reaches start n → g.Below n n → ∀ limit, (g.traverse start limit).length = limit) ∧
    (g.childLists.Nodup → ¬ g.Below start start → ∃ visited, g.VisitsByDepth start visited ∧
      ∀ limit, visited.length ≤ limit → g.traverse start limit = visited) := by
  refine ⟨fun limit count h => g.traverse_eq_take start h,
    fun n hreach hcycle => length_traverse_of_cycle hreach hcycle, fun once acyclic => ?_⟩
  obtain ⟨count, hnil⟩ := exists_level_eq_nil once acyclic
  exact ⟨g.firstLevels start count, visitsByDepth_firstLevels once acyclic hnil,
    fun limit hlimit => g.traverse_of_level_eq_nil start hnil hlimit⟩

def familyGraph (last : List NodeId) : Graph Char :=
  ⟨#[⟨some 'a', none, [1, 2, 3]⟩, ⟨some 'b', some 0, [4, 5]⟩, ⟨some 'c', some 0, []⟩,
    ⟨some 'd', some 0, [6]⟩, ⟨some 'e', some 1, []⟩, ⟨some 'f', some 1, []⟩, ⟨some 'g', some 3, last⟩]⟩

theorem not_below_familyGraph (n : NodeId) : ¬ (familyGraph []).Below n n := by
  have hchild : ∀ m n, n ∈ (familyGraph []).children m → m < n := by
    intro m n hn
    have hm : m < 7 := lt_size_of_mem_children hn
    have hall : ∀ m < 7, ∀ n ∈ (familyGraph []).children m, m < n := by decide
    exact hall m hm n hn
  have hbelow {m n : NodeId} (h : (familyGraph []).Below m n) : m < n := by
    induction h with
    | single hstep => exact hchild _ _ hstep
    | tail _ hstep ih => exact Nat.lt_trans ih (hchild _ _ hstep)
  exact fun h => Nat.lt_irrefl n (hbelow h)

theorem traverse_levelOrder_family :
    ((familyGraph []).childLists.Nodup ∧ ¬ (familyGraph []).Below 0 0 ∧
      (familyGraph []).traverse 0 5 = ((familyGraph []).firstLevels 0 6).take 5 ∧
      ∃ visited, (familyGraph []).VisitsByDepth 0 visited ∧
        ∀ limit, visited.length ≤ limit → (familyGraph []).traverse 0 limit = visited) ∧
    (familyGraph [0]).Reaches 0 0 ∧ (familyGraph [0]).Below 0 0 ∧
      ∀ limit, ((familyGraph [0]).traverse 0 limit).length = limit := by
  have once : (familyGraph []).childLists.Nodup := by decide
  have hcycle : (familyGraph [0]).Below 0 0 :=
    .head (show 3 ∈ [1, 2, 3] by decide) (.head (show 6 ∈ [6] by decide) (.single (show 0 ∈ [0] by decide)))
  obtain ⟨htake, -, hends⟩ := traverse_levelOrder (familyGraph []) 0
  exact ⟨⟨once, not_below_familyGraph 0, htake 5 6 (by decide), hends once (not_below_familyGraph 0)⟩,
    .refl, hcycle, (traverse_levelOrder (familyGraph [0]) 0).2.1 0 .refl hcycle⟩

end SpanForest.Graph
