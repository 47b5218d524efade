import SpanForest.Sorting.Merging

/-!
Stable sorting by an order that may fail or contradict itself. The list is cut into runs that ascend or
strictly descend, the latter turned round; short ones are filled up by putting in further elements by
halving. Runs are merged along a nearly even tree. Which pairs are compared, and when, decides which
failure is met first and where elements go that have no order.
-/

namespace SpanForest.Sorting

variable {ε α : Type}

def insert (before : α → α → Except ε Bool) (xs : List α) (x : α) : Except ε (List α) :=
  match halve .forward (fun y => (before x y).map not) xs xs.length 0 xs.length with
  | .error e => .error e
  | .ok place => .ok (xs.take place ++ x :: xs.drop place)

def insertAll (before : α → α → Except ε Bool) (sorted : List α) : List α → Except ε (List α)
  | [] => .ok sorted
  | x :: rest =>
      match insert before sorted x with
      | .error e => .error e
      | .ok sorted => insertAll before sorted rest

def startFrom (before : α → α → Except ε Bool) (descending : Bool) (last : α) :
    List α → Except ε (List α × List α)
  | [] => .ok ([], [])
  | x :: rest =>
      match before x last with
      | .error e => .error e
      | .ok below =>
          if below = descending then
            match startFrom before descending x rest with
            | .error e => .error e
            | .ok (run, others) => .ok (x :: run, others)
          else .ok ([], x :: rest)

def naturalRun (before : α → α → Except ε Bool) : List α → Except ε (List α × List α)
  | [] => .ok ([], [])
  | [x] => .ok ([x], [])
  | x :: y :: rest =>
      match before y x with
      | .error e => .error e
      | .ok descending =>
          match startFrom before descending y rest with
          | .error e => .error e
          | .ok (run, others) =>
              let start := x :: y :: run
              .ok (if descending then start.reverse else start, others)

def nextRun (before : α → α → Except ε Bool) (length : Nat) (xs : List α) :
    Except ε (List α × List α) := do
  let (run, rest) ← naturalRun before xs
  let filled ← insertAll before run (rest.take (length - run.length))
  pure (filled, rest.drop (length - run.length))

def runLimit : Nat := 64

/-- The length to fill runs up to: that of the list, halved until it is below the limit and rounded
up. -/
def runLength (fuel length odd : Nat) : Nat :=
  match fuel with
  | 0 => length + odd
  | fuel + 1 =>
      if length < runLimit then length + odd
      else runLength fuel (length / 2) (max odd (length % 2))

/-- A run that waits to be merged, and how deep in the tree it is merged with the next one. -/
structure Waiting (α : Type) where
  run : List α
  start : Nat
  depth : Nat

/-- The number of binary places up to the first in which two fractions of `n` differ. -/
def firstDifference (n : Nat) : Nat → Nat → Nat → Nat
  | 0, _, _ => 0
  | fuel + 1, a, b =>
      if n ≤ a then firstDifference n fuel (2 * (a - n)) (2 * (b - n)) + 1
      else if n ≤ b then 1
      else firstDifference n fuel (2 * a) (2 * b) + 1

/-- How deep two neighbouring runs are merged in a list of `n`: where their middles part. -/
def mergeDepth (n start length next : Nat) : Nat :=
  let middle := 2 * start + length
  firstDifference n (n + 2) middle (middle + length + next)

/-- Merges the last run with those before it that are to be merged deeper than `depth`. -/
def mergeDeeper (before : α → α → Except ε Bool) (depth : Nat) (run : List α) (start threshold : Nat) :
    List (Waiting α) → Except ε (Waiting α × List (Waiting α) × Nat)
  | [] => .ok (⟨run, start, depth⟩, [], threshold)
  | w :: rest =>
      if depth < w.depth then
        match mergeRuns before w.run run threshold with
        | .error e => .error e
        | .ok (merged, threshold) => mergeDeeper before depth merged w.start threshold rest
      else .ok (⟨run, start, depth⟩, w :: rest, threshold)

/-- Merges all runs, the last one first. The third last is merged before the last if it is shorter. -/
def mergeAll (before : α → α → Except ε Bool) : Nat → Nat → List (List α) → Except ε (List α)
  | 0, _, runs => .ok runs.reverse.flatten
  | fuel + 1, threshold, runs =>
      match runs with
      | [] => .ok []
      | [z] => .ok z
      | z :: y :: rest =>
          match rest with
          | x :: rest =>
              if x.length < z.length then do
                let (merged, threshold) ← mergeRuns before x y threshold
                mergeAll before fuel threshold (z :: merged :: rest)
              else do
                let (merged, threshold) ← mergeRuns before y z threshold
                mergeAll before fuel threshold (merged :: x :: rest)
          | [] => do
              let (merged, threshold) ← mergeRuns before y z threshold
              mergeAll before fuel threshold [merged]

/-- Cuts off runs and merges them; `last` is the run before the rest of the list, whose whole length is
`n`. -/
def sortFrom (before : α → α → Except ε Bool) (n length : Nat) :
    Nat → List α → Nat → Nat → List (Waiting α) → List α → Except ε (List α)
  | 0, last, _, _, _, _ => .ok last
  | fuel + 1, last, start, threshold, waiting, rest => do
      if rest.isEmpty then
        let runs := last :: waiting.map Waiting.run
        mergeAll before runs.length threshold runs
      else
        let (run, rest) ← nextRun before length rest
        let depth := mergeDepth n start last.length run.length
        let (w, waiting, threshold) ← mergeDeeper before depth last start threshold waiting
        sortFrom before n length fuel run (w.start + w.run.length) threshold (w :: waiting) rest

def sortByRuns (before : α → α → Except ε Bool) (xs : List α) : Except ε (List α) := do
  let n := xs.length
  let length := runLength n n 0
  let (run, rest) ← nextRun before length xs
  sortFrom before n length (n + 1) run 0 worthwhile [] rest

end SpanForest.Sorting
