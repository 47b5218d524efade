/-!
Lines of a sequence, of characters or of bytes, under a mark that ends each of them. What follows the
last mark is a line of its own unless it is empty. `unify` turns the other line ends of a text into
line feeds beforehand.
-/

namespace SpanForest.Text

variable {α : Type} [DecidableEq α]

/-- The lines that a mark ends, and what follows the last mark. -/
def endedLines (mark : α) : List α → List (List α) × List α
  | [] => ([], [])
  | c :: rest =>
      let after := endedLines mark rest
      if c = mark then ([] :: after.1, after.2)
      else
        match after.1 with
        | [] => ([], c :: after.2)
        | line :: others => ((c :: line) :: others, after.2)

def lines (mark : α) (cs : List α) : List (List α) :=
  let found := endedLines mark cs
  if found.2.isEmpty then found.1 else found.1 ++ [found.2]

theorem lines_nil (mark : α) : lines mark [] = [] := rfl

theorem endedLines_cons_mark (mark : α) (cs : List α) :
    endedLines mark (mark :: cs) = ([] :: (endedLines mark cs).1, (endedLines mark cs).2) := by
  simp [endedLines]

/-- Every carriage return, with or without a line feed after it, becomes a line feed. -/
def unify : List Char → List Char
  | [] => []
  | '\r' :: '\n' :: rest => '\n' :: unify rest
  | c :: rest => (if c = '\r' then '\n' else c) :: unify rest

end SpanForest.Text
