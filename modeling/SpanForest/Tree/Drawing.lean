import SpanForest.Fault
import SpanForest.Span.Basic
import SpanForest.Tree.Outline

/-!
Drawing a tree, one node a line, children indented under their parent. The drawing works off a stack
of what is left to draw, next node first. The line of a span shows its id, whether it is shared, its
service and its name; only strings can be shown.
-/

namespace SpanForest.Drawing

/-- The parts of a line, which must be strings; `position` is that of the first of them. -/
def joinFrom (position : Nat) : List Value → Except Fault (List Text)
  | [] => .ok []
  | .string s :: rest =>
      match joinFrom (position + 1) rest with
      | .error e => .error e
      | .ok shown => .ok (s :: shown)
  | v :: _ => .error (.notText position v.kind)

def spanParts (s : Span) : List Value :=
  [s.id] ++ (if s.shared.isSet then [.string "[shared]"] else [])
    ++ (if s.serviceName.isSet then [s.serviceName] else [])
    ++ (if s.name.isSet then [s.name] else [])

def missingRoot : Text := "(missing root)"

/-- The line of a node: a span, or none for a root that stands in. -/
def describe : Option Span → Except Fault Text
  | none => .ok missingRoot
  | some s =>
      match joinFrom 0 (spanParts s) with
      | .error e => .error e
      | .ok shown => .ok ([.char ' '].intercalate shown)

theorem describe_none : describe none = .ok missingRoot := rfl

variable {α : Type}

abbrev Pending (α : Type) := Tree α × Nat

def workLeft (stack : List (Pending α)) : Nat := Tree.sizeList (stack.map Prod.fst)

def push (children : List (Tree α)) (depth : Nat) (stack : List (Pending α)) : List (Pending α) :=
  children.map (·, depth) ++ stack

theorem workLeft_push (children : List (Tree α)) (depth : Nat) (stack : List (Pending α)) :
    workLeft (push children depth stack) = Tree.sizeList children + workLeft stack := by
  simp [workLeft, push, Tree.sizeList_append, Function.comp_def]

def drawStack (describe : α → Except Fault Text) (indent : Text) :
    List (Pending α) → Except Fault Text
  | [] => .ok []
  | (.node value children, depth) :: stack =>
      match describe value with
      | .error e => .error e
      | .ok shown =>
          match drawStack describe indent (push children (depth + 1) stack) with
          | .error e => .error e
          | .ok tail =>
              .ok ((List.replicate depth indent).flatten ++ shown ++ .char '\n' :: tail)
termination_by stack => workLeft stack
decreasing_by
  rw [workLeft_push]
  simp [workLeft, Tree.sizeList, Tree.size]

def draw (describe : α → Except Fault Text) (indent : Text) (t : Tree α) : Except Fault Text :=
  drawStack describe indent [(t, 0)]

def defaultIndent : Text := "  "

def drawSpans (indent : Text) (t : Tree (Option Span)) : Except Fault Text :=
  draw describe indent t

end SpanForest.Drawing
