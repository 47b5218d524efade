/-!
Stable sorting by an order that never fails: each element goes before the first of the later ones that
is not below it, so elements that the order does not tell apart stay as they were given.
-/

namespace SpanForest.Sorting

variable {α : Type}

def insertStable (before : α → α → Bool) (x : α) : List α → List α
  | [] => [x]
  | y :: ys => if before y x then y :: insertStable before x ys else x :: y :: ys

def sortStable (before : α → α → Bool) : List α → List α
  | [] => []
  | x :: xs => insertStable before x (sortStable before xs)

theorem insertStable_perm (before : α → α → Bool) (x : α) (ys : List α) :
    (insertStable before x ys).Perm (x :: ys) := by
  induction ys with
  | nil => exact .refl _
  | cons y ys ih =>
      simp only [insertStable]
      split
      · exact (List.Perm.cons y ih).trans (.swap x y ys)
      · exact .refl _

theorem sortStable_perm (before : α → α → Bool) (xs : List α) :
    (sortStable before xs).Perm xs := by
  induction xs with
  | nil => exact .refl _
  | cons x xs ih => exact (insertStable_perm before x _).trans (.cons x ih)

end SpanForest.Sorting
