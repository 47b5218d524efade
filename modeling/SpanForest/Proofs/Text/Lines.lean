import SpanForest.Text.Blank
import SpanForest.Text.Line

/-!
Texts put together of lines, and taken apart again; texts without blanks at their ends.
-/

namespace SpanForest.Text

variable {α : Type} [DecidableEq α] {mark : α}

theorem endedLines_append {cs : List α} (h : mark ∉ cs) (ds : List α) :
    endedLines mark (cs ++ ds) =
      match (endedLines mark ds).1 with
      | [] => ([], cs ++ (endedLines mark ds).2)
      | line :: others => ((cs ++ line) :: others, (endedLines mark ds).2) := by
  induction cs with
  | nil =>
      simp only [List.nil_append]
      split
      · next hfound => exact Prod.ext hfound rfl
      · next hfound => exact Prod.ext hfound rfl
  | cons c cs ih =>
      rw [List.mem_cons, not_or] at h
      rw [List.cons_append, endedLines, if_neg (Ne.symm h.1), ih h.2]
      cases (endedLines mark ds).1 with
      | nil => rfl
      | cons line others => rfl

theorem endedLines_of_notMem {cs : List α} (h : mark ∉ cs) : endedLines mark cs = ([], cs) := by
  have happend := endedLines_append h []
  rw [List.append_nil] at happend
  rw [happend, endedLines, List.append_nil]

theorem endedLines_append_mark {cs : List α} (h : mark ∉ cs) (ds : List α) :
    endedLines mark (cs ++ mark :: ds) =
      (cs :: (endedLines mark ds).1, (endedLines mark ds).2) := by
  rw [endedLines_append h, endedLines_cons_mark]
  simp

theorem lines_append_mark {cs : List α} (h : mark ∉ cs) (ds : List α) :
    lines mark (cs ++ mark :: ds) = cs :: lines mark ds := by
  simp only [lines, endedLines_append_mark h]
  split <;> rfl

theorem lines_of_notMem {cs : List α} (h : mark ∉ cs) (hne : cs ≠ []) : lines mark cs = [cs] := by
  simp [lines, endedLines_of_notMem h, hne]

theorem lines_intercalate {ls : List (List α)} (h : ∀ l ∈ ls, mark ∉ l ∧ l ≠ []) :
    lines mark ([mark].intercalate ls) = ls := by
  induction ls with
  | nil => rfl
  | cons l ls ih =>
      obtain ⟨hmark, hne⟩ := h l List.mem_cons_self
      have hrest := ih fun m hm => h m (List.mem_cons_of_mem l hm)
      cases ls with
      | nil => simpa using lines_of_notMem hmark hne
      | cons m ls =>
          rw [List.intercalate_cons_cons, List.append_assoc, List.singleton_append,
            lines_append_mark hmark, hrest]

omit [DecidableEq α] in
theorem notMem_intercalate_iff {c : α} (h : c ≠ mark) {ls : List (List α)} :
    c ∉ [mark].intercalate ls ↔ ∀ l ∈ ls, c ∉ l := by
  induction ls with
  | nil => simp
  | cons l ls ih =>
      cases ls with
      | nil => simp
      | cons m ls =>
          rw [List.intercalate_cons_cons, List.forall_mem_cons, ← ih]
          simp [h]

omit [DecidableEq α] in
theorem dropWhile_of_head? {p : α → Bool} {cs : List α} (h : ∀ c ∈ cs.head?, p c = false) :
    cs.dropWhile p = cs := by
  cases cs with
  | nil => rfl
  | cons c cs =>
      rw [List.dropWhile_cons, h c rfl]
      rfl

structure EndsShown {β : Type} (blank : β → Bool) (cs : List β) : Prop where
  first : ∀ c ∈ cs.head?, blank c = false
  last : ∀ c ∈ cs.getLast?, blank c = false

section

variable {β : Type} {blank : β → Bool}

theorem EndsShown.append {cs ds : List β} (hcs : EndsShown blank cs) (hds : EndsShown blank ds) :
    EndsShown blank (cs ++ ds) where
  first c hc := by
    rw [List.head?_append, Option.mem_def, Option.or_eq_some_iff] at hc
    rcases hc with hc | ⟨-, hc⟩
    · exact hcs.first c hc
    · exact hds.first c hc
  last c hc := by
    rw [List.getLast?_append, Option.mem_def, Option.or_eq_some_iff] at hc
    rcases hc with hc | ⟨-, hc⟩
    · exact hds.last c hc
    · exact hcs.last c hc

theorem endsShown_of_forall {cs : List β} (h : ∀ c ∈ cs, blank c = false) : EndsShown blank cs where
  first c hc := h c (List.mem_of_head? hc)
  last c hc := h c (List.mem_of_getLast? hc)

theorem EndsShown.trimBy {cs : List β} (h : EndsShown blank cs) : trimBy blank cs = cs := by
  have hlast : ∀ c ∈ cs.reverse.head?, blank c = false := by
    rw [List.head?_reverse]
    exact h.last
  rw [Text.trimBy, dropWhile_of_head? h.first, dropWhile_of_head? hlast, List.reverse_reverse]

theorem EndsShown.trimBy_between {before cs after : List β} (h : EndsShown blank cs) (hne : cs ≠ [])
    (hbefore : ∀ c ∈ before, blank c = true) (hafter : ∀ c ∈ after, blank c = true) :
    Text.trimBy blank (before ++ cs ++ after) = cs := by
  have hfirst : ∀ c ∈ (cs ++ after).head?, blank c = false := by
    obtain ⟨first, rest, rfl⟩ := List.exists_cons_of_ne_nil hne
    exact h.first
  have hlast : ∀ c ∈ cs.reverse.head?, blank c = false := by
    rw [List.head?_reverse]
    exact h.last
  have hblanks : ∀ c ∈ after.reverse, blank c = true := fun c hc => hafter c (List.mem_reverse.1 hc)
  rw [Text.trimBy, List.append_assoc, List.dropWhile_append_of_pos hbefore, dropWhile_of_head? hfirst,
    List.reverse_append, List.dropWhile_append_of_pos hblanks, dropWhile_of_head? hlast,
    List.reverse_reverse]

theorem endsShown_trimBy (blank : β → Bool) (cs : List β) : EndsShown blank (Text.trimBy blank cs) := by
  have hdrop (ds : List β) : ∀ c ∈ (ds.dropWhile blank).head?, blank c = false := by
    intro c hc
    have hhead := List.head?_dropWhile_not blank ds
    rw [Option.mem_def.1 hc] at hhead
    exact hhead
  constructor
  · intro c hc
    rw [Text.trimBy, List.head?_reverse] at hc
    obtain ⟨skipped, hskipped⟩ := List.dropWhile_suffix blank (l := (cs.dropWhile blank).reverse)
    refine hdrop cs c ?_
    rw [← List.getLast?_reverse, ← hskipped, List.getLast?_append, Option.mem_def.1 hc]
    rfl
  · intro c hc
    rw [Text.trimBy, List.getLast?_reverse] at hc
    exact hdrop _ c hc

theorem trimBy_infix (blank : β → Bool) (cs : List β) : Text.trimBy blank cs <:+: cs := by
  have hrest := (List.dropWhile_suffix blank (l := (cs.dropWhile blank).reverse)).reverse
  rw [List.reverse_reverse] at hrest
  exact hrest.isInfix.trans (List.dropWhile_suffix blank).isInfix

end

theorem trimList_of_ends {first last : Char} (hfirst : isBlank first = false)
    (hlast : isBlank last = false) (cs : List Char) :
    trimList (first :: cs ++ [last]) = first :: cs ++ [last] := by
  refine EndsShown.trimBy ⟨?_, fun c hc => ?_⟩
  · simpa using hfirst
  · rw [List.getLast?_concat] at hc
    exact Option.some.inj hc ▸ hlast

theorem unify_of_notMem {cs : List Char} (h : '\r' ∉ cs) : unify cs = cs := by
  induction cs with
  | nil => rfl
  | cons c cs ih =>
      rw [List.mem_cons, not_or] at h
      have hc : c ≠ '\r' := Ne.symm h.1
      simp [unify, hc, ih h.2]

end SpanForest.Text
