/-!
Searching a sorted list by tests that may fail. A list may be gone through forward or backward, and is
held in the order in which it is gone through. How many elements at its start pass a test is found by
strides that double, then by halving; which elements are tested is part of what these functions say,
since a test can fail or contradict another.
-/

namespace SpanForest.Sorting

variable {ε α : Type}

inductive Direction where
  | forward | backward
  deriving DecidableEq

namespace Direction

def ahead (d : Direction) (before : α → α → Except ε Bool) (x y : α) : Except ε Bool :=
  match d with
  | .forward => before x y
  | .backward => before y x

/-- The middle of a stretch. Of two, it is the one nearer the end of the forward list. -/
def middle (d : Direction) (lo hi : Nat) : Nat :=
  match d with
  | .forward => lo + (hi - lo) / 2
  | .backward => lo + (hi - lo - 1) / 2

end Direction

def halve (d : Direction) (passes : α → Except ε Bool) (xs : List α) :
    Nat → Nat → Nat → Except ε Nat
  | 0, _, hi => .ok hi
  | fuel + 1, lo, hi =>
      if lo < hi then
        let middle := d.middle lo hi
        match xs[middle]? with
        | none => .ok hi
        | some x =>
            match passes x with
            | .error e => .error e
            | .ok true => halve d passes xs fuel (middle + 1) hi
            | .ok false => halve d passes xs fuel lo middle
      else .ok hi

/-- Two places between which the elements cease to pass; `fuel` bounds the strides. -/
def stride (passes : α → Except ε Bool) (xs : List α) : Nat → Nat → Nat → Except ε (Nat × Nat)
  | 0, last, next => .ok (last, next)
  | fuel + 1, last, next =>
      match xs[next]? with
      | none => .ok (last, xs.length)
      | some x =>
          match passes x with
          | .error e => .error e
          | .ok true => stride passes xs fuel next (2 * next + 1)
          | .ok false => .ok (last, next)

def countPassing (d : Direction) (passes : α → Except ε Bool) : List α → Except ε Nat
  | [] => .ok 0
  | x :: rest =>
      match passes x with
      | .error e => .error e
      | .ok false => .ok 0
      | .ok true =>
          let xs := x :: rest
          match stride passes xs xs.length 0 1 with
          | .error e => .error e
          | .ok (last, next) => halve d passes xs xs.length (last + 1) next

end SpanForest.Sorting
