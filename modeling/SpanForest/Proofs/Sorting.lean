import Mathlib.Order.Lattice
import SpanForest.Sorting.Stable

/-!
Stable sorting by a key from a linear order. The result is in order of keys, and what is in order is
left alone; elements with one key stay as they stood. An order that agrees with a key on the
elements of a list sorts that list as the key does.
-/

namespace SpanForest.Sorting

variable {α κ : Type}

theorem insertStable_congr {before before' : α → α → Bool} {x : α} {ys : List α}
    (h : ∀ y ∈ ys, before y x = before' y x) :
    insertStable before x ys = insertStable before' x ys := by
  induction ys with
  | nil => rfl
  | cons y ys ih =>
      rw [insertStable, insertStable, h y List.mem_cons_self,
        ih fun z hz => h z (List.mem_cons_of_mem y hz)]

theorem mem_sortStable {before : α → α → Bool} {xs : List α} {x : α} :
    x ∈ sortStable before xs ↔ x ∈ xs :=
  (sortStable_perm before xs).mem_iff

theorem sortStable_congr {before before' : α → α → Bool} {xs : List α}
    (h : ∀ x ∈ xs, ∀ y ∈ xs, before x y = before' x y) :
    sortStable before xs = sortStable before' xs := by
  induction xs with
  | nil => rfl
  | cons x xs ih =>
      have hrest : sortStable before xs = sortStable before' xs :=
        ih fun y hy z hz => h y (List.mem_cons_of_mem x hy) z (List.mem_cons_of_mem x hz)
      rw [sortStable, sortStable, hrest]
      refine insertStable_congr fun y hy => h y ?_ x List.mem_cons_self
      exact List.mem_cons_of_mem x (mem_sortStable.1 hy)

variable [LinearOrder κ]

def byKey (key : α → κ) (x y : α) : Bool := decide (key x < key y)

/-- A list in order of keys; equal keys may follow one another. -/
def InOrder (key : α → κ) (xs : List α) : Prop := xs.Pairwise fun x y => key x ≤ key y

variable (key : α → κ)

theorem inOrder_insertStable (x : α) {ys : List α} (h : InOrder key ys) :
    InOrder key (insertStable (byKey key) x ys) := by
  induction ys with
  | nil => exact List.pairwise_singleton _ x
  | cons y ys ih =>
      obtain ⟨hy, hys⟩ := List.pairwise_cons.1 h
      rw [insertStable, byKey]
      split
      · next hlt =>
          rw [decide_eq_true_eq] at hlt
          refine List.pairwise_cons.2 ⟨fun z hz => ?_, ih hys⟩
          rcases List.mem_cons.1 ((insertStable_perm _ x ys).mem_iff.1 hz) with rfl | hz
          · exact le_of_lt hlt
          · exact hy z hz
      · next hge =>
          rw [decide_eq_true_eq, not_lt] at hge
          refine List.pairwise_cons.2 ⟨fun z hz => ?_, h⟩
          rcases List.mem_cons.1 hz with rfl | hz
          · exact hge
          · exact le_trans hge (hy z hz)

theorem inOrder_sortStable (xs : List α) : InOrder key (sortStable (byKey key) xs) := by
  induction xs with
  | nil => exact .nil
  | cons x xs ih => exact inOrder_insertStable key x ih

theorem sortStable_of_inOrder {xs : List α} (h : InOrder key xs) :
    sortStable (byKey key) xs = xs := by
  induction xs with
  | nil => rfl
  | cons x xs ih =>
      obtain ⟨hx, hxs⟩ := List.pairwise_cons.1 h
      rw [sortStable, ih hxs]
      cases xs with
      | nil => rfl
      | cons y ys =>
          have hle : ¬ key y < key x := not_lt.2 (hx y List.mem_cons_self)
          rw [insertStable, byKey, decide_eq_false hle, if_neg Bool.false_ne_true]

variable {key} in
theorem filter_insertStable (x : α) (ys : List α) (k : κ) :
    (insertStable (byKey key) x ys).filter (fun y => decide (key y = k)) =
      (x :: ys).filter fun y => decide (key y = k) := by
  induction ys with
  | nil => rfl
  | cons y ys ih =>
      rw [insertStable, byKey]
      split
      · next hlt =>
          have hne : key y ≠ key x := ne_of_lt (of_decide_eq_true hlt)
          rw [List.filter_cons, ih]
          by_cases hx : key x = k
          · have hy : key y ≠ k := fun h => hne (h.trans hx.symm)
            simp [hx, hy]
          · simp [List.filter_cons, hx]
      · rfl

/-- `ys` are the elements of `xs` in order of keys; those of one key stand as in `xs`. -/
structure StablyOrders (xs ys : List α) : Prop where
  perm : ys.Perm xs
  inOrder : InOrder key ys
  stable : ∀ k, ys.filter (fun y => decide (key y = k)) = xs.filter fun x => decide (key x = k)

theorem stablyOrders_sortStable (xs : List α) :
    StablyOrders key xs (sortStable (byKey key) xs) where
  perm := sortStable_perm (byKey key) xs
  inOrder := inOrder_sortStable key xs
  stable k := by
    induction xs with
    | nil => rfl
    | cons x xs ih => rw [sortStable, filter_insertStable, List.filter_cons, List.filter_cons, ih]

variable {key} in
theorem StablyOrders.sublist_iff {xs ys zs : List α} (h : StablyOrders key xs ys) {k : κ}
    (hzs : ∀ z ∈ zs, key z = k) : zs.Sublist ys ↔ zs.Sublist xs := by
  have hall : zs.filter (fun z => decide (key z = k)) = zs :=
    List.filter_eq_self.2 fun z hz => decide_eq_true (hzs z hz)
  constructor
  · intro hsub
    have hkept := hsub.filter fun z => decide (key z = k)
    rw [hall, h.stable] at hkept
    exact hkept.trans List.filter_sublist
  · intro hsub
    have hkept := hsub.filter fun z => decide (key z = k)
    rw [hall, ← h.stable] at hkept
    exact hkept.trans List.filter_sublist

variable {key}

theorem mem_iff_of_filter {xs ys : List α}
    (h : ∀ k, xs.filter (fun x => decide (key x = k)) = ys.filter fun y => decide (key y = k)) (z : α) :
    z ∈ xs ↔ z ∈ ys := by
  have hz := congrArg (z ∈ ·) (h (key z))
  simpa only [List.mem_filter, decide_true, and_true, eq_iff_iff] using hz

theorem InOrder.eq_of_filter {xs ys : List α} (hxs : InOrder key xs) (hys : InOrder key ys)
    (h : ∀ k, xs.filter (fun x => decide (key x = k)) = ys.filter fun y => decide (key y = k)) :
    xs = ys := by
  have hmem := mem_iff_of_filter h
  induction xs generalizing ys with
  | nil => exact (List.eq_nil_iff_forall_not_mem.2 fun y hy => nomatch (hmem y).2 hy).symm
  | cons x xs ih =>
      cases ys with
      | nil => exact nomatch (hmem x).1 List.mem_cons_self
      | cons y ys =>
          obtain ⟨hx, hxrest⟩ := List.pairwise_cons.1 hxs
          obtain ⟨hy, hyrest⟩ := List.pairwise_cons.1 hys
          have hle : key y ≤ key x := by
            rcases List.mem_cons.1 ((hmem x).1 List.mem_cons_self) with rfl | hin
            · exact le_refl _
            · exact hy x hin
          have hge : key x ≤ key y := by
            rcases List.mem_cons.1 ((hmem y).2 List.mem_cons_self) with rfl | hin
            · exact le_refl _
            · exact hx y hin
          have hkey : key y = key x := le_antisymm hle hge
          -- the first elements are the first of one key
          have hfirst := h (key x)
          simp only [List.filter_cons, hkey, decide_true, if_true] at hfirst
          obtain ⟨rfl, -⟩ := List.cons.inj hfirst
          have hrest : ∀ k, xs.filter (fun x => decide (key x = k)) =
              ys.filter fun y => decide (key y = k) := by
            intro k
            have hk := h k
            by_cases hxk : key x = k <;> simpa [List.filter_cons, hxk] using hk
          rw [ih hxrest hyrest hrest (mem_iff_of_filter hrest)]

variable (key)

/-- `ys` are the elements of `xs`, and those of one key stand as in `xs`. -/
structure StablyRearranges (xs ys : List α) : Prop where
  perm : ys.Perm xs
  stable : ∀ k, ys.filter (fun y => decide (key y = k)) = xs.filter fun x => decide (key x = k)

theorem stablyRearranges_swap {x y : α} (hne : key x ≠ key y) (rest : List α) :
    StablyRearranges key (x :: y :: rest) (y :: x :: rest) where
  perm := .swap x y rest
  stable k := by
    by_cases hx : key x = k
    · have hy : key y ≠ k := fun hy => hne (hx.trans hy.symm)
      simp [List.filter_cons, hy]
    · simp [List.filter_cons, hx]

theorem sortStable_of_stablyRearranges {xs ys : List α} (h : StablyRearranges key xs ys) :
    sortStable (byKey key) ys = sortStable (byKey key) xs := by
  have hxs := stablyOrders_sortStable key xs
  have hys := stablyOrders_sortStable key ys
  exact hys.inOrder.eq_of_filter hxs.inOrder fun k => by rw [hys.stable, hxs.stable, h.stable]

end SpanForest.Sorting
