import SpanForest.Sorting.Search

/-!
Merging two runs that stand next to each other. The shorter one is set aside, and the merge starts at
the other one's far end. As long as neither side keeps winning, elements are taken one by one; else the
merge leaps, taking stretches at once. How long a streak must be before it leaps is a threshold that
falls while leaping pays and rises when it ceases to, and which later merges inherit.
-/

namespace SpanForest.Sorting

variable {ε α : Type}

def worthwhile : Nat := 7

/-- A merge on its way. Elements already taken are held last first. -/
structure Merging (α : Type) where
  taken : List α
  given : List α
  aside : List α
  threshold : Nat

namespace Merging

def takeGiven (m : Merging α) (count : Nat) : Merging α :=
  { m with taken := (m.given.take count).reverse ++ m.taken, given := m.given.drop count }

def takeAside (m : Merging α) (count : Nat) : Merging α :=
  { m with taken := (m.aside.take count).reverse ++ m.taken, aside := m.aside.drop count }

/-- Whether the place of all that is left is known: the last element set aside comes last. -/
def isDone (m : Merging α) : Bool := m.given.isEmpty || decide (m.aside.length ≤ 1)

def toList (m : Merging α) : List α := m.taken.reverse ++ m.given ++ m.aside

/-- Takes all set aside that the next given element is not ahead of, then that element. -/
def leapAside (d : Direction) (before : α → α → Except ε Bool) (m : Merging α) :
    Except ε (Nat × Merging α) :=
  match m.given with
  | [] => .ok (0, m)
  | g :: _ => do
      let count ← countPassing d (fun x => (d.ahead before g x).map not) m.aside
      let m := m.takeAside count
      pure (count, if m.isDone then m else m.takeGiven 1)

/-- Takes all given that are ahead of the next element set aside, then that element. -/
def leapGiven (d : Direction) (before : α → α → Except ε Bool) (m : Merging α) :
    Except ε (Nat × Merging α) :=
  match m.aside with
  | [] => .ok (0, m)
  | a :: _ => do
      let count ← countPassing d (fun x => d.ahead before x a) m.given
      let m := m.takeGiven count
      pure (count, if m.isDone then m else m.takeAside 1)

def leapFirst (d : Direction) (before : α → α → Except ε Bool) (m : Merging α) :
    Except ε (Nat × Merging α) :=
  match d with
  | .forward => m.leapAside d before
  | .backward => m.leapGiven d before

def leapSecond (d : Direction) (before : α → α → Except ε Bool) (m : Merging α) :
    Except ε (Nat × Merging α) :=
  match d with
  | .forward => m.leapGiven d before
  | .backward => m.leapAside d before

/-- How the next elements are taken: one by one, with the streak of one side so far, or by leaps. -/
inductive Pace where
  | step (givenWon : Bool) (streak : Nat)
  | leap

/-- Merges what is left. Every round takes an element, so `fuel` may be their number. -/
def run (d : Direction) (before : α → α → Except ε Bool) :
    Nat → Pace → Merging α → Except ε (Merging α)
  | 0, _, m => .ok m
  | fuel + 1, .step givenWon streak, m =>
      match m.given, m.aside with
      | g :: _, a :: _ => do
          let wins ← d.ahead before g a
          let streak := if wins = givenWon then streak + 1 else 1
          let m := if wins then m.takeGiven 1 else m.takeAside 1
          if m.isDone then pure m
          else if m.threshold ≤ streak then
            run d before fuel .leap { m with threshold := m.threshold + 1 }
          else run d before fuel (.step wins streak) m
      | _, _ => .ok m
  | fuel + 1, .leap, m => do
      let (first, m) ← leapFirst d before { m with threshold := max 1 (m.threshold - 1) }
      if m.isDone then pure m
      else
        let (second, m) ← leapSecond d before m
        if m.isDone then pure m
        else if worthwhile ≤ first || worthwhile ≤ second then run d before fuel .leap m
        else run d before fuel (.step true 0) { m with threshold := m.threshold + 1 }

def start (d : Direction) (before : α → α → Except ε Bool) (given aside : List α) (threshold : Nat) :
    Except ε (Merging α) :=
  let m := takeGiven ⟨[], given, aside, threshold⟩ 1
  if m.isDone then .ok m
  else run d before (given.length + aside.length) (.step true 0) m

end Merging

/-- Merges two runs, with the threshold before and after. Elements at the outer ends that are in place
are left out of it. -/
def mergeRuns (before : α → α → Except ε Bool) (xs ys : List α) (threshold : Nat) :
    Except ε (List α × Nat) := do
  match ys with
  | [] => pure (xs, threshold)
  | first :: _ =>
      let settled ← countPassing .forward (fun x => (before first x).map not) xs
      let left := xs.drop settled
      match left.getLast? with
      | none => pure (xs ++ ys, threshold)
      | some last =>
          let behind ← countPassing .backward (fun y => (before y last).map not) ys.reverse
          let right := ys.take (ys.length - behind)
          if right.isEmpty then pure (xs ++ ys, threshold)
          else
            let merged ←
              if left.length ≤ right.length then do
                let m ← Merging.start .forward before right left threshold
                pure (m.toList, m.threshold)
              else do
                let m ← Merging.start .backward before left.reverse right.reverse threshold
                pure (m.toList.reverse, m.threshold)
            pure (xs.take settled ++ merged.1 ++ ys.drop right.length, merged.2)

end SpanForest.Sorting
