import SpanForest.Sorting.Runs
import SpanForest.Sorting.Stable

/-!
Stable sorting by an order that may fail. On elements that are plain the order is total, and there is
one stable arrangement of them, however it is found. Others may fail to be compared, or be neither below
nor above nor like one another; then the outcome depends on the method, which is to sort by runs.
-/

namespace SpanForest.Sorting

variable {ε α : Type}

def holds (before : α → α → Except ε Bool) (x y : α) : Bool :=
  match before x y with
  | .ok below => below
  | .error _ => false

def sort (isPlain : α → Bool) (before : α → α → Except ε Bool) (xs : List α) : Except ε (List α) :=
  if xs.all isPlain then .ok (sortStable (holds before) xs) else sortByRuns before xs

theorem sort_plain {isPlain : α → Bool} {xs : List α} (h : ∀ x ∈ xs, isPlain x = true)
    (before : α → α → Except ε Bool) :
    sort isPlain before xs = .ok (sortStable (holds before) xs) :=
  if_pos (List.all_eq_true.2 h)

end SpanForest.Sorting
