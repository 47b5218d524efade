import SpanForest.Proofs.Span.CleanupKey
import SpanForest.Proofs.Tree.Lines

/-!
A drawing without its stack: one piece a node, the node's line between its indentation and a line
feed, each node before those below it and children in their order. The first node without a line is
what a drawing fails at; a span has a line if its id, service and name are texts.
-/

namespace SpanForest

theorem Value.IsOptionalString.exists_string {v : Value} (h : v.IsOptionalString)
    (hset : v.isSet = true) : ∃ t, v = .string t := by
  cases h with
  | absent => cases hset
  | present t => exact ⟨t, rfl⟩

namespace Tree

variable {α : Type}

mutual

/-- The values of a tree whose root is at some depth, each with its depth and before those below it. -/
def preorder (depth : Nat) : Tree α → List (α × Nat)
  | node value children => (value, depth) :: preorderList (depth + 1) children

def preorderList (depth : Nat) : List (Tree α) → List (α × Nat)
  | [] => []
  | t :: rest => preorder depth t ++ preorderList depth rest

end

theorem preorderList_eq (depth : Nat) (ts : List (Tree α)) :
    preorderList depth ts = ts.flatMap (preorder depth) := by
  induction ts with
  | nil => rfl
  | cons t ts ih => rw [preorderList, ih, List.flatMap_cons]

mutual

theorem length_preorder (depth : Nat) : (t : Tree α) → (preorder depth t).length = size t
  | node value children => by
      rw [preorder, List.length_cons, length_preorderList (depth + 1) children, size, Nat.add_comm]

theorem length_preorderList (depth : Nat) :
    (ts : List (Tree α)) → (preorderList depth ts).length = sizeList ts
  | [] => rfl
  | t :: rest => by
      rw [preorderList, List.length_append, length_preorder depth t, length_preorderList depth rest,
        sizeList]

end

end Tree

namespace Graph

variable {V : Type} {g : Graph V}

theorem value_of_mem_preorder {levels depth : Nat} {n : NodeId} {t : Tree (Option V)}
    (h : g.outlineWithin levels n = some t) {place : Option V × Nat}
    (hplace : place ∈ t.preorder depth) : ∃ m, g.value m = place.1 := by
  induction levels generalizing n t depth with
  | zero => cases h
  | succ levels ih =>
      obtain ⟨below, hbelow, rfl⟩ := (outlineWithin_succ levels n t).1 h
      rw [Tree.preorder, Tree.preorderList_eq, List.mem_cons, List.mem_flatMap] at hplace
      rcases hplace with rfl | ⟨child, hchild, hplace⟩
      · exact ⟨n, rfl⟩
      · obtain ⟨i, hi, rfl⟩ := List.mem_iff_getElem.1 hchild
        exact ih (hbelow.get (hbelow.length_eq ▸ hi) hi) hplace

end Graph

namespace Drawing

section

variable {α : Type} {describe : α → Except Fault Text} {indent : Text}

def preorderStack (stack : List (Pending α)) : List (α × Nat) :=
  stack.flatMap fun pending => pending.1.preorder pending.2

theorem preorderStack_node (value : α) (children : List (Tree α)) (depth : Nat)
    (stack : List (Pending α)) : preorderStack ((.node value children, depth) :: stack) =
      (value, depth) :: preorderStack (push children (depth + 1) stack) := by
  simp [preorderStack, push, Tree.preorder, Tree.preorderList_eq, List.flatMap_map]

theorem drawStack_eq_preorder (stack : List (Pending α)) :
    drawStack describe indent stack = lines describe indent (preorderStack stack) := by
  fun_induction drawStack describe indent stack with
  | case1 => rfl
  | case2 depth stack value children e hline => rw [preorderStack_node, lines, hline]
  | case3 depth stack value children shown hline e hrest ih =>
      rw [preorderStack_node, lines, hline, ← ih, hrest]
  | case4 depth stack value children shown hline tail hrest ih =>
      rw [preorderStack_node, lines, hline, ← ih, hrest]

theorem draw_eq_preorder (t : Tree α) : draw describe indent t = lines describe indent (t.preorder 0) := by
  rw [draw, drawStack_eq_preorder, preorderStack, List.flatMap_singleton]

/-- What a drawing has of one node. -/
def piece (line : α → Text) (indent : Text) (place : α × Nat) : Text :=
  (List.replicate place.2 indent).flatten ++ line place.1 ++ [.char '\n']

theorem lines_eq {line : α → Text} {places : List (α × Nat)}
    (h : ∀ place ∈ places, describe place.1 = .ok (line place.1)) :
    lines describe indent places = .ok (places.flatMap (piece line indent)) := by
  induction places with
  | nil => rfl
  | cons place rest ih =>
      obtain ⟨hline, hrest⟩ := List.forall_mem_cons.1 h
      rw [lines, hline, ih hrest]
      simp [piece]

end

/-- The words of a span's line: its id, a mark if it is shared, its service and its name. What is empty
is left out. -/
def words (s : Span) : List Text :=
  s.id.textOrEmpty :: (if s.shared.isSet then ["[shared]"] else []) ++
    [s.serviceName.textOrEmpty, s.name.textOrEmpty].filter (· ≠ [])

theorem words_eq (s : Span) : words s =
    s.id.textOrEmpty :: (if s.shared.isSet then ["[shared]"] else []) ++
      ([s.serviceName.textOrEmpty].filter (· ≠ []) ++ [s.name.textOrEmpty].filter (· ≠ [])) := by
  rw [← List.filter_append]
  rfl

/-- The line of a node, its words a blank apart. -/
def line : Option Span → Text
  | none => missingRoot
  | some s => [.char ' '].intercalate (words s)

end Drawing

/-- What the line of a span shows are texts. -/
structure Span.Titled (s : Span) : Prop where
  id : ∃ t, s.id = .string t
  serviceName : s.serviceName.IsOptionalString
  name : s.name.IsOptionalString

namespace Drawing

theorem joinFrom_eq {position : Nat} {parts : List Value} (h : ∀ v ∈ parts, ∃ t, v = .string t) :
    joinFrom position parts = .ok (parts.map Value.textOrEmpty) := by
  induction parts generalizing position with
  | nil => rfl
  | cons v rest ih =>
      obtain ⟨⟨t, rfl⟩, hrest⟩ := List.forall_mem_cons.1 h
      rw [joinFrom, ih hrest]
      rfl

theorem forall_spanParts_iff {s : Span} : (∀ v ∈ spanParts s, ∃ t, v = .string t) ↔
    (∃ t, s.id = .string t) ∧ (s.serviceName.isSet = true → ∃ t, s.serviceName = .string t) ∧
      (s.name.isSet = true → ∃ t, s.name = .string t) := by
  simp only [spanParts, List.forall_mem_append, List.mem_ite_nil_right, List.mem_singleton, and_imp,
    forall_eq, forall_eq_apply_imp_iff, and_assoc]
  exact and_congr_right fun _ => and_iff_right fun _ => ⟨_, rfl⟩

theorem map_spanParts {s : Span} (titled : s.Titled) :
    (spanParts s).map Value.textOrEmpty = words s := by
  have hwhole (v : Value) (hv : v.IsOptionalString) :
      (if v.isSet then [v] else []).map Value.textOrEmpty = [v.textOrEmpty].filter (· ≠ []) := by
    cases hv with
    | absent => rfl
    | present t => by_cases ht : t = [] <;> simp [Value.isSet, Value.textOrEmpty, ht]
  rw [words_eq, ← hwhole _ titled.serviceName, ← hwhole _ titled.name, spanParts]
  cases s.shared.isSet <;> simp [Value.textOrEmpty]

theorem describe_eq_line {value : Option Span} (titled : ∀ s, value = some s → s.Titled) :
    describe value = .ok (line value) := by
  cases value with
  | none => rfl
  | some s =>
      have hs := titled s rfl
      have htexts := forall_spanParts_iff.2 ⟨hs.id, hs.serviceName.exists_string, hs.name.exists_string⟩
      rw [describe, joinFrom_eq htexts, line, ← map_spanParts hs]

/-- Every node of a tree of spans has one line, and the text is these lines, each behind its indentation
and before a line feed, with a node before those below it. -/
theorem drawSpans_eq_pieces (indent : Text) {t : Tree (Option Span)}
    (titled : ∀ s depth, (some s, depth) ∈ t.preorder 0 → s.Titled) :
    drawSpans indent t = .ok ((t.preorder 0).flatMap (piece line indent)) ∧
      (t.preorder 0).length = t.size ∧
      ∀ value depth, (value, depth) ∈ t.preorder 0 → describe value = .ok (line value) := by
  have hlines : ∀ place ∈ t.preorder 0, describe place.1 = .ok (line place.1) := by
    intro place hplace
    refine describe_eq_line fun s hs => titled s place.2 ?_
    rw [← hs]
    exact hplace
  refine ⟨?_, t.length_preorder 0, fun value depth h => hlines (value, depth) h⟩
  rw [drawSpans, draw_eq_preorder, lines_eq hlines]

def callTree : Tree (Option Span) :=
  let client : Span :=
    { id := .string "2", name := .string "get", localEndpoint := some { serviceName := .string "web" } }
  let server : Span := { id := .string "2", shared := .bool true, name := .string "get" }
  .node none [.node (some client) [.node (some server) []], .node (some { id := .string "3" }) []]

theorem drawSpans_eq_pieces_callTree :
    (∀ s depth, (some s, depth) ∈ callTree.preorder 0 → s.Titled) ∧
      drawSpans defaultIndent callTree =
        .ok "(missing root)\n  2 web get\n    2 [shared] get\n  3\n" := by
  have titled : ∀ s depth, (some s, depth) ∈ callTree.preorder 0 → s.Titled := by
    intro s depth h
    simp only [callTree, Tree.preorder, Tree.preorderList, List.append_nil, List.cons_append,
      List.nil_append, List.mem_cons, List.not_mem_nil, or_false, Prod.mk.injEq, reduceCtorEq,
      false_and, false_or, Option.some.injEq] at h
    rcases h with ⟨rfl, -⟩ | ⟨rfl, -⟩ | ⟨rfl, -⟩
    · exact ⟨⟨_, rfl⟩, .present "web", .present "get"⟩
    · exact ⟨⟨_, rfl⟩, .absent, .present "get"⟩
    · exact ⟨⟨_, rfl⟩, .absent, .absent⟩
  refine ⟨titled, (drawSpans_eq_pieces defaultIndent titled).1.trans (congrArg Except.ok ?_)⟩
  decide +kernel

end Drawing

end SpanForest
