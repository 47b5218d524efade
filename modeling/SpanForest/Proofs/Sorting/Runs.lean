import SpanForest.Proofs.Running
import SpanForest.Sorting

/-!
Sorting by an order that may fail. Whatever the order says, the outcome has the elements that were
given, each as often; and the sort fails only as the order fails on two of them. Each step is said
to end in a list that is a permutation of what it took, or in a fault of the order.
-/

namespace SpanForest.Sorting

variable {ε α : Type} {E : ε → Prop} {P : α → Prop}

def Tests (E : ε → Prop) (P : α → Prop) (passes : α → Except ε Bool) : Prop :=
  ∀ x, P x → Ends E (fun _ => True) (passes x)

theorem Tests.not {passes : α → Except ε Bool} (h : Tests E P passes) :
    Tests E P fun x => (passes x).map not := by
  intro x hx
  have htest := h x hx
  dsimp only
  cases hpasses : passes x with
  | error e => exact htest.of_error hpasses
  | ok answer => trivial

section Search

variable {passes : α → Except ε Bool} (tests : Tests E P passes) (d : Direction) {xs : List α}
include tests

theorem halve_ends (hxs : ∀ x ∈ xs, P x) (fuel lo hi : Nat) :
    Ends E (fun _ => True) (halve d passes xs fuel lo hi) := by
  induction fuel generalizing lo hi with
  | zero => trivial
  | succ fuel ih =>
      rw [halve]
      split
      · dsimp only
        split
        · trivial
        · next x hx =>
          have htest := tests x (hxs x (List.mem_of_getElem? hx))
          split
          · next hfault => exact htest.of_error hfault
          · exact ih _ _
          · exact ih _ _
      · trivial

theorem stride_ends (hxs : ∀ x ∈ xs, P x) (fuel last next : Nat) :
    Ends E (fun _ => True) (stride passes xs fuel last next) := by
  induction fuel generalizing last next with
  | zero => trivial
  | succ fuel ih =>
      rw [stride]
      split
      · trivial
      · next x hx =>
        have htest := tests x (hxs x (List.mem_of_getElem? hx))
        split
        · next hfault => exact htest.of_error hfault
        · exact ih _ _
        · trivial

theorem countPassing_ends (hxs : ∀ x ∈ xs, P x) :
    Ends E (fun _ => True) (countPassing d passes xs) := by
  cases xs with
  | nil => trivial
  | cons x rest =>
      have htest := tests x (hxs x List.mem_cons_self)
      rw [countPassing]
      split
      · next hfault => exact htest.of_error hfault
      · trivial
      · have hstride := stride_ends tests hxs (x :: rest).length 0 1
        dsimp only
        split
        · next hfault => exact hstride.of_error hfault
        · exact halve_ends tests d hxs _ _ _

end Search

variable {before : α → α → Except ε Bool} (compares : ∀ y, P y → Tests E P (before y))
include compares

theorem tests_flip {y : α} (hy : P y) : Tests E P fun x => before x y := fun x hx => compares x hx y hy

section Cutting

theorem insert_ends {xs : List α} (hxs : ∀ x ∈ xs, P x) {x : α} (hx : P x) :
    Ends E (·.Perm (x :: xs)) (insert before xs x) := by
  have hplace := halve_ends (compares x hx).not .forward hxs xs.length 0 xs.length
  rw [insert]
  split
  · next hfault => exact hplace.of_error hfault
  · next place _ =>
    have hmiddle : (xs.take place ++ x :: xs.drop place).Perm (x :: (xs.take place ++ xs.drop place)) :=
      List.perm_middle
    rwa [List.take_append_drop] at hmiddle

theorem insertAll_ends {sorted rest : List α} (hsorted : ∀ x ∈ sorted, P x) (hrest : ∀ x ∈ rest, P x) :
    Ends E (·.Perm (sorted ++ rest)) (insertAll before sorted rest) := by
  induction rest generalizing sorted with
  | nil => exact .of_eq (List.append_nil sorted).symm
  | cons x rest ih =>
      obtain ⟨hx, hrest⟩ := List.forall_mem_cons.1 hrest
      have hinsert := insert_ends compares hsorted hx
      rw [insertAll]
      split
      · next hfault => exact hinsert.of_error hfault
      · next inserted hok =>
        have hperm : inserted.Perm (x :: sorted) := hinsert.of_ok hok
        have hinserted : ∀ y ∈ inserted, P y := fun y hy =>
          List.forall_mem_cons.2 ⟨hx, hsorted⟩ y (hperm.mem_iff.1 hy)
        refine (ih hinserted hrest).imp fun ys hys => ?_
        exact hys.trans ((hperm.append_right rest).trans List.perm_middle.symm)

theorem startFrom_ends (descending : Bool) {last : α} (hlast : P last) {xs : List α}
    (hxs : ∀ x ∈ xs, P x) :
    Ends E (fun found => found.1 ++ found.2 = xs) (startFrom before descending last xs) := by
  induction xs generalizing last with
  | nil => rfl
  | cons x rest ih =>
      obtain ⟨hx, hrest⟩ := List.forall_mem_cons.1 hxs
      have htest := compares x hx last hlast
      rw [startFrom]
      split
      · next hfault => exact htest.of_error hfault
      · split
        · have htail := ih hx hrest
          split
          · next hfault => exact htail.of_error hfault
          · next run others hok =>
            have happend : run ++ others = rest := htail.of_ok hok
            exact congrArg (x :: ·) happend
        · rfl

theorem naturalRun_ends {xs : List α} (hxs : ∀ x ∈ xs, P x) :
    Ends E (fun found => (found.1 ++ found.2).Perm xs ∧ (xs ≠ [] → found.1 ≠ []))
      (naturalRun before xs) := by
  match xs with
  | [] => exact ⟨.refl _, id⟩
  | [x] => exact ⟨.refl _, fun _ => List.cons_ne_nil x []⟩
  | x :: y :: rest =>
      obtain ⟨hx, hy, hrest⟩ : P x ∧ P y ∧ ∀ z ∈ rest, P z := by
        simpa only [List.forall_mem_cons] using hxs
      have htest := compares y hy x hx
      rw [naturalRun]
      split
      · next hfault => exact htest.of_error hfault
      · next descending _ =>
        have hstart := startFrom_ends compares descending hy hrest
        split
        · next hfault => exact hstart.of_error hfault
        · next run others hok =>
          have happend : run ++ others = rest := hstart.of_ok hok
          have hturned : (if descending then (x :: y :: run).reverse else x :: y :: run).Perm
              (x :: y :: run) := by
            split
            · exact List.reverse_perm _
            · exact .refl _
          refine ⟨?_, fun _ hnil => ?_⟩
          · refine (hturned.append_right others).trans (.of_eq ?_)
            rw [List.cons_append, List.cons_append, happend]
          · have hlength := hturned.length_eq
            dsimp only at hnil
            rw [hnil] at hlength
            cases hlength

theorem nextRun_ends (length : Nat) {xs : List α} (hxs : ∀ x ∈ xs, P x) :
    Ends E (fun found => (found.1 ++ found.2).Perm xs ∧ (xs ≠ [] → found.1 ≠ []))
      (nextRun before length xs) := by
  refine (naturalRun_ends compares hxs).bind fun found hfound => ?_
  obtain ⟨run, rest⟩ := found
  obtain ⟨hperm, hne⟩ := hfound
  dsimp only at hperm hne ⊢
  have hmem : ∀ x ∈ run ++ rest, P x := fun x hx => hxs x (hperm.mem_iff.1 hx)
  have hrun : ∀ x ∈ run, P x := fun x hx => hmem x (List.mem_append_left rest hx)
  have htaken : ∀ x ∈ rest.take (length - run.length), P x := fun x hx =>
    hmem x (List.mem_append_right run (List.mem_of_mem_take hx))
  refine (insertAll_ends compares hrun htaken).bind fun filled hfilled => ?_
  refine ⟨?_, fun hxs hnil => ?_⟩
  · refine ((hfilled.append_right _).trans (.of_eq ?_)).trans hperm
    rw [List.append_assoc, List.take_append_drop]
  · dsimp only at hnil
    rw [hnil] at hfilled
    exact hne hxs (List.append_eq_nil_iff.1 hfilled.nil_eq.symm).1

end Cutting

omit compares

namespace Merging

theorem toList_takeGiven (m : Merging α) (count : Nat) : (m.takeGiven count).toList = m.toList := by
  simp [takeGiven, toList]

theorem toList_takeAside (m : Merging α) (count : Nat) : (m.takeAside count).toList.Perm m.toList := by
  have hsplit : m.toList = m.taken.reverse ++ (m.given ++ (m.aside.take count ++ m.aside.drop count)) := by
    rw [List.take_append_drop, toList, List.append_assoc]
  have hmoved : (m.takeAside count).toList =
      m.taken.reverse ++ (m.aside.take count ++ (m.given ++ m.aside.drop count)) := by
    simp [takeAside, toList]
  rw [hsplit, hmoved]
  refine List.Perm.append_left _ ?_
  rw [← List.append_assoc, ← List.append_assoc]
  exact List.perm_append_comm.append_right _

end Merging

include compares

section Merge

open Merging

variable (d : Direction)

theorem ahead_tests {y : α} (hy : P y) :
    Tests E P (d.ahead before y) ∧ Tests E P fun x => d.ahead before x y := by
  cases d with
  | forward => exact ⟨compares y hy, tests_flip compares hy⟩
  | backward => exact ⟨tests_flip compares hy, compares y hy⟩

variable {m : Merging α} (hm : ∀ x ∈ m.toList, P x)
include hm

theorem leapAside_ends :
    Ends E (fun found => found.2.toList.Perm m.toList) (m.leapAside d before) := by
  have haside : ∀ x ∈ m.aside, P x := fun x hx => hm x (List.mem_append_right _ hx)
  rw [leapAside]
  split
  · exact .refl _
  · next g rest hgiven =>
    have hg : P g := hm g (by simp [toList, hgiven])
    have htests := (ahead_tests compares d hg).1.not
    refine (countPassing_ends htests d haside).bind fun count _ => ?_
    refine .trans ?_ (m.toList_takeAside count)
    dsimp only
    split
    · exact .refl _
    · rw [toList_takeGiven]

theorem leapGiven_ends :
    Ends E (fun found => found.2.toList.Perm m.toList) (m.leapGiven d before) := by
  have hgiven : ∀ x ∈ m.given, P x := fun x hx =>
    hm x (List.mem_append_left _ (List.mem_append_right _ hx))
  rw [leapGiven]
  split
  · exact .refl _
  · next a rest haside =>
    have ha : P a := hm a (by simp [toList, haside])
    have htests := (ahead_tests compares d ha).2
    refine (countPassing_ends htests d hgiven).bind fun count _ => ?_
    refine .trans ?_ (.of_eq (m.toList_takeGiven count))
    dsimp only
    split
    · exact .refl _
    · exact toList_takeAside _ 1

theorem leaps_end :
    Ends E (fun found => found.2.toList.Perm m.toList) (m.leapFirst d before) ∧
      Ends E (fun found => found.2.toList.Perm m.toList) (m.leapSecond d before) := by
  have haside := leapAside_ends compares d hm
  have hgiven := leapGiven_ends compares d hm
  cases d with
  | forward => exact ⟨haside, hgiven⟩
  | backward => exact ⟨hgiven, haside⟩

theorem run_ends (fuel : Nat) (pace : Pace) :
    Ends E (·.toList.Perm m.toList) (run d before fuel pace m) := by
  -- elements only move between the three lists, whatever the order answers
  have hkept {m m' : Merging α} (hm : ∀ x ∈ m.toList, P x) (hperm : m'.toList.Perm m.toList) :
      ∀ x ∈ m'.toList, P x := fun x hx => hm x (hperm.mem_iff.1 hx)
  induction fuel generalizing m pace with
  | zero => exact .refl _
  | succ fuel ih =>
      cases pace with
      | step givenWon streak =>
          rw [run]
          split
          · next g _ a _ hgiven haside =>
            have hg : P g := hm g (by simp [toList, hgiven])
            have ha : P a := hm a (by simp [toList, haside])
            refine ((ahead_tests compares d hg).1 a ha).bind fun wins _ => ?_
            dsimp only
            have htaken : (if wins then m.takeGiven 1 else m.takeAside 1).toList.Perm m.toList := by
              split
              · rw [toList_takeGiven]
              · exact m.toList_takeAside 1
            generalize (if wins then m.takeGiven 1 else m.takeAside 1) = next at htaken ⊢
            generalize (if wins = givenWon then streak + 1 else 1) = longer
            have hnext := hkept hm htaken
            split
            · exact htaken
            · split
              · exact (ih (m := { next with threshold := next.threshold + 1 }) hnext .leap).imp
                  fun _ h => .trans h htaken
              · exact (ih hnext _).imp fun _ h => .trans h htaken
          · exact .refl _
      | leap =>
          rw [run]
          refine (leaps_end compares d (m := { m with threshold := max 1 (m.threshold - 1) })
            hm).1.bind fun found hfound => ?_
          obtain ⟨first, m₁⟩ := found
          have h₁ : m₁.toList.Perm m.toList := hfound
          have hm₁ := hkept hm h₁
          dsimp only
          split
          · exact h₁
          · refine (leaps_end compares d hm₁).2.bind fun found hfound => ?_
            obtain ⟨second, m₂⟩ := found
            have h₂ : m₂.toList.Perm m.toList := hfound.trans h₁
            have hm₂ := hkept hm h₂
            dsimp only
            split
            · exact h₂
            · split
              · exact (ih hm₂ .leap).imp fun _ h => .trans h h₂
              · exact (ih (m := { m₂ with threshold := m₂.threshold + 1 }) hm₂ _).imp
                  fun _ h => .trans h h₂

end Merge

theorem start_ends (d : Direction) {given aside : List α} (hgiven : ∀ x ∈ given, P x)
    (haside : ∀ x ∈ aside, P x) (threshold : Nat) :
    Ends E (·.toList.Perm (given ++ aside)) (Merging.start d before given aside threshold) := by
  have htaken : (Merging.takeGiven ⟨[], given, aside, threshold⟩ 1).toList.Perm (given ++ aside) :=
    .of_eq (Merging.toList_takeGiven _ 1)
  have hmem : ∀ x ∈ given ++ aside, P x := by
    intro x hx
    rcases List.mem_append.1 hx with hx | hx
    · exact hgiven x hx
    · exact haside x hx
  have hstart : ∀ x ∈ (Merging.takeGiven ⟨[], given, aside, threshold⟩ 1).toList, P x :=
    fun x hx => hmem x (htaken.mem_iff.1 hx)
  rw [Merging.start]
  split
  · exact htaken
  · exact (run_ends compares d hstart _ _).imp fun _ h => .trans h htaken

theorem mergeRuns_ends {xs ys : List α} (hxs : ∀ x ∈ xs, P x) (hys : ∀ y ∈ ys, P y)
    (threshold : Nat) :
    Ends E (fun merged => merged.1.Perm (xs ++ ys)) (mergeRuns before xs ys threshold) := by
  unfold mergeRuns
  split
  · exact .of_eq (List.append_nil xs).symm
  · next first rest =>
    have hfirst : P first := hys first List.mem_cons_self
    refine (countPassing_ends (compares first hfirst).not .forward hxs).bind fun settled _ => ?_
    dsimp only
    split
    · exact .refl _
    · next last hlast =>
      have hleft : ∀ x ∈ xs.drop settled, P x := fun x hx => hxs x (List.mem_of_mem_drop hx)
      have htests := (tests_flip compares (hleft last (List.mem_of_getLast? hlast))).not
      have hreversed : ∀ y ∈ (first :: rest).reverse, P y :=
        fun y hy => hys y (List.mem_reverse.1 hy)
      refine (countPassing_ends htests .backward hreversed).bind fun behind _ => ?_
      have hsplit : (first :: rest).take ((first :: rest).length - behind) ++
          (first :: rest).drop ((first :: rest).take ((first :: rest).length - behind)).length =
            first :: rest := by
        rw [List.length_take_of_le (Nat.sub_le _ _), List.take_append_drop]
      have hright : ∀ y ∈ (first :: rest).take ((first :: rest).length - behind), P y :=
        fun y hy => hys y (List.mem_of_mem_take hy)
      generalize (first :: rest).take ((first :: rest).length - behind) = right at hsplit hright ⊢
      split
      · exact .refl _
      · have hwhole {merged : List α} (hperm : merged.Perm (xs.drop settled ++ right)) :
            (xs.take settled ++ merged ++ (first :: rest).drop right.length).Perm
              (xs ++ first :: rest) := by
          refine ((hperm.append_left (xs.take settled)).append_right _).trans (.of_eq ?_)
          rw [← List.append_assoc, List.take_append_drop, List.append_assoc, hsplit]
        split
        · refine (start_ends compares .forward hright hleft threshold).bind fun m hm => ?_
          exact hwhole (hm.trans List.perm_append_comm)
        · refine (start_ends compares .backward (fun x hx => hleft x (List.mem_reverse.1 hx))
            (fun y hy => hright y (List.mem_reverse.1 hy)) threshold).bind fun m hm => ?_
          have hturned := (List.reverse_perm (xs.drop settled)).append (List.reverse_perm right)
          exact hwhole ((List.reverse_perm _).trans (hm.trans hturned))

def waitingElements (waiting : List (Waiting α)) : List α := (waiting.map Waiting.run).flatten

theorem mergeDeeper_ends (depth start threshold : Nat) {run : List α} {waiting : List (Waiting α)}
    (hrun : ∀ x ∈ run, P x) (hwaiting : ∀ x ∈ waitingElements waiting, P x) :
    Ends E (fun found => (found.1.run ++ waitingElements found.2.1).Perm
      (run ++ waitingElements waiting)) (mergeDeeper before depth run start threshold waiting) := by
  induction waiting generalizing run start threshold with
  | nil => exact .refl _
  | cons w rest ih =>
      have hcons : waitingElements (w :: rest) = w.run ++ waitingElements rest := rfl
      rw [hcons] at hwaiting ⊢
      have hw : ∀ x ∈ w.run, P x := fun x hx => hwaiting x (List.mem_append_left _ hx)
      have hrest : ∀ x ∈ waitingElements rest, P x := fun x hx =>
        hwaiting x (List.mem_append_right _ hx)
      rw [mergeDeeper]
      split
      · have hmerge := mergeRuns_ends compares hw hrun threshold
        split
        · next hfault => exact hmerge.of_error hfault
        · next merged threshold' hok =>
          have hperm : merged.Perm (w.run ++ run) := hmerge.of_ok hok
          have hmerged : ∀ x ∈ merged, P x := by
            intro x hx
            rcases List.mem_append.1 (hperm.mem_iff.1 hx) with hx | hx
            · exact hw x hx
            · exact hrun x hx
          refine (ih w.start threshold' hmerged hrest).imp fun _ h => .trans h ?_
          rw [← List.append_assoc]
          exact (hperm.trans List.perm_append_comm).append_right _
      · exact .refl _

omit compares in
theorem flatten_merged {merged xs ys : List α} (hperm : merged.Perm (xs ++ ys)) (more : List (List α)) :
    (merged :: more).flatten.Perm (ys :: xs :: more).flatten := by
  rw [List.flatten_cons, List.flatten_cons, List.flatten_cons, ← List.append_assoc]
  exact (hperm.trans List.perm_append_comm).append_right _

theorem mergeAll_ends (fuel threshold : Nat) {runs : List (List α)}
    (hruns : ∀ x ∈ runs.flatten, P x) :
    Ends E (·.Perm runs.flatten) (mergeAll before fuel threshold runs) := by
  induction fuel generalizing threshold runs with
  | zero => exact (List.reverse_perm runs).flatten
  | succ fuel ih =>
      have hgo {merged : List (List α)} (threshold' : Nat) (hperm : merged.flatten.Perm runs.flatten) :
          Ends E (·.Perm runs.flatten) (mergeAll before fuel threshold' merged) :=
        (ih threshold' fun x hx => hruns x (hperm.mem_iff.1 hx)).imp fun _ h => .trans h hperm
      have hrun {run : List α} (hmem : run ∈ runs) : ∀ x ∈ run, P x := fun x hx =>
        hruns x (List.mem_flatten_of_mem hmem hx)
      unfold mergeAll
      split
      · exact .refl _
      · next z => exact .of_eq (List.append_nil z).symm
      · next z y rest =>
        have hz : ∀ x ∈ z, P x := hrun (by simp)
        have hy : ∀ x ∈ y, P x := hrun (by simp)
        split
        · next x rest =>
          have hx : ∀ w ∈ x, P w := hrun (by simp)
          split
          · refine (mergeRuns_ends compares hx hy threshold).bind fun merged hperm => ?_
            exact hgo _ ((flatten_merged hperm rest).append_left z)
          · refine (mergeRuns_ends compares hy hz threshold).bind fun merged hperm => ?_
            exact hgo _ (flatten_merged hperm (x :: rest))
        · refine (mergeRuns_ends compares hy hz threshold).bind fun merged hperm => ?_
          exact hgo _ (flatten_merged hperm [])

theorem sortFrom_ends (n length fuel start threshold : Nat) {last rest : List α}
    {waiting : List (Waiting α)} (hlast : ∀ x ∈ last, P x)
    (hwaiting : ∀ x ∈ waitingElements waiting, P x) (hrest : ∀ x ∈ rest, P x)
    (hfuel : rest.length < fuel) :
    Ends E (·.Perm (last ++ (waitingElements waiting ++ rest)))
      (sortFrom before n length fuel last start threshold waiting rest) := by
  induction fuel generalizing last start threshold waiting rest with
  | zero => cases hfuel
  | succ fuel ih =>
      unfold sortFrom
      split
      · next hempty =>
        rw [List.isEmpty_iff.1 hempty, List.append_nil]
        have hruns : ∀ x ∈ (last :: waiting.map Waiting.run).flatten, P x := by
          intro x hx
          rcases List.mem_append.1 hx with hx | hx
          · exact hlast x hx
          · exact hwaiting x hx
        exact mergeAll_ends compares _ threshold hruns
      · next hne =>
        refine (nextRun_ends compares length hrest).bind fun found hfound => ?_
        obtain ⟨run, others⟩ := found
        obtain ⟨hcut, hsome⟩ := hfound
        dsimp only at hcut hsome ⊢
        have hparts : ∀ x ∈ run ++ others, P x := fun x hx => hrest x (hcut.mem_iff.1 hx)
        -- no run is empty, so less is left each time and the bound is not reached
        have hless : others.length < rest.length := by
          have hlength := hcut.length_eq
          rw [List.length_append] at hlength
          have hpos := List.length_pos_iff.2 (hsome fun hnil => hne (List.isEmpty_iff.2 hnil))
          omega
        refine (mergeDeeper_ends compares _ start threshold hlast hwaiting).bind fun found hmerged => ?_
        obtain ⟨w, waiting', threshold'⟩ := found
        dsimp only at hmerged ⊢
        have hboth : ∀ x ∈ w.run ++ waitingElements waiting', P x := by
          intro x hx
          rcases List.mem_append.1 (hmerged.mem_iff.1 hx) with hx | hx
          · exact hlast x hx
          · exact hwaiting x hx
        have hcons : waitingElements (w :: waiting') = w.run ++ waitingElements waiting' := rfl
        rw [← hcons] at hboth
        have hgo := ih (w.start + w.run.length) threshold'
          (fun x hx => hparts x (List.mem_append_left _ hx)) hboth
          (fun x hx => hparts x (List.mem_append_right _ hx)) (by omega)
        refine hgo.imp fun _ h => .trans h ?_
        calc (run ++ (waitingElements (w :: waiting') ++ others)).Perm
              (waitingElements (w :: waiting') ++ (run ++ others)) := List.perm_append_comm_assoc _ _ _
          _ = (w.run ++ waitingElements waiting') ++ (run ++ others) := by rw [hcons]
          List.Perm _ ((last ++ waitingElements waiting) ++ rest) := hmerged.append hcut
          _ = last ++ (waitingElements waiting ++ rest) := List.append_assoc _ _ _

theorem sortByRuns_ends {xs : List α} (hxs : ∀ x ∈ xs, P x) :
    Ends E (·.Perm xs) (sortByRuns before xs) := by
  unfold sortByRuns
  refine (nextRun_ends compares _ hxs).bind fun found hfound => ?_
  obtain ⟨run, rest⟩ := found
  obtain ⟨hcut, -⟩ := hfound
  dsimp only at hcut ⊢
  have hparts : ∀ x ∈ run ++ rest, P x := fun x hx => hxs x (hcut.mem_iff.1 hx)
  have hfuel : rest.length < xs.length + 1 := by
    have hlength := hcut.length_eq
    rw [List.length_append] at hlength
    omega
  have hwaiting : ∀ x ∈ waitingElements [], P x := List.forall_mem_nil _
  refine (sortFrom_ends compares _ _ _ _ _ (fun x hx => hparts x (List.mem_append_left _ hx)) hwaiting
    (fun x hx => hparts x (List.mem_append_right _ hx)) hfuel).imp fun _ h => .trans h hcut

omit compares in
theorem sort_ends (isPlain : α → Bool) (before : α → α → Except ε Bool) (xs : List α) :
    Ends (fun e => ∃ x ∈ xs, ∃ y ∈ xs, before x y = .error e) (·.Perm xs) (sort isPlain before xs) := by
  rw [sort]
  split
  · exact sortStable_perm _ xs
  · refine sortByRuns_ends (P := (· ∈ xs)) (fun x hx y hy => ?_) fun _ => id
    cases hxy : before x y with
    | error e => exact ⟨x, hx, y, hy, hxy⟩
    | ok answer => trivial

end SpanForest.Sorting
