import Mathlib.Data.List.Nodup
import Mathlib.Data.List.Perm.Basic
import Mathlib.Logic.Relation

/-!
Working off what is pending. An item is taken from the front, and what follows it is put among the
rest: at the end for a queue, in front for a stack. What does not depend on that order is said once,
for both.
-/

namespace SpanForest.Worklist

variable {α : Type}

def workOff (push : List α → List α → List α) (next : α → List α) : Nat → List α → List α
  | 0, _ => []
  | _ + 1, [] => []
  | limit + 1, x :: pending => x :: workOff push next limit (push pending (next x))

def leftover (push : List α → List α → List α) (next : α → List α) : Nat → List α → List α
  | 0, pending => pending
  | _ + 1, [] => []
  | limit + 1, x :: pending => leftover push next limit (push pending (next x))

variable (push : List α → List α → List α) (next : α → List α)

theorem workOff_nil (limit : Nat) : workOff push next limit [] = [] := by
  cases limit <;> rfl

theorem leftover_nil (limit : Nat) : leftover push next limit [] = [] := by
  cases limit <;> rfl

theorem workOff_one (pending : List α) : workOff push next 1 pending = pending.take 1 := by
  cases pending <;> rfl

theorem workOff_add (m n : Nat) (pending : List α) :
    workOff push next (m + n) pending =
      workOff push next m pending ++ workOff push next n (leftover push next m pending) := by
  induction m generalizing pending with
  | zero => rw [Nat.zero_add]; rfl
  | succ m ih =>
      cases pending with
      | nil => simp only [workOff_nil, leftover_nil, List.append_nil]
      | cons x pending =>
          rw [Nat.add_right_comm]
          simp only [workOff, leftover, ih, List.cons_append]

theorem length_workOff (limit : Nat) (pending : List α) :
    (workOff push next limit pending).length = limit ∨ leftover push next limit pending = [] := by
  induction limit generalizing pending with
  | zero => exact .inl rfl
  | succ limit ih =>
      cases pending with
      | nil => exact .inr rfl
      | cons x pending =>
          rcases ih (push pending (next x)) with h | h
          · exact .inl (by simp only [workOff, List.length_cons, h])
          · exact .inr h

theorem length_workOff_le (limit : Nat) (pending : List α) :
    (workOff push next limit pending).length ≤ limit := by
  induction limit generalizing pending with
  | zero => exact Nat.le_refl 0
  | succ limit ih =>
      cases pending with
      | nil => exact Nat.zero_le _
      | cons x pending => exact Nat.succ_le_succ (ih (push pending (next x)))

theorem take_workOff {k limit : Nat} (hk : k ≤ limit) (pending : List α) :
    (workOff push next limit pending).take k = workOff push next k pending := by
  obtain ⟨n, rfl⟩ := Nat.exists_eq_add_of_le hk
  rw [workOff_add]
  rcases length_workOff push next k pending with h | h
  · rw [List.take_left' h]
  · rw [h, workOff_nil, List.append_nil, List.take_of_length_le (length_workOff_le push next k pending)]

variable {push next}

variable {β : Type} {push' : List β → List β → List β} {next' : β → List β} {f : α → β}

theorem map_workOff (hpush : ∀ pending new, (push pending new).map f = push' (pending.map f) (new.map f))
    (hnext : ∀ x, (next x).map f = next' (f x)) (limit : Nat) (pending : List α) :
    (workOff push next limit pending).map f = workOff push' next' limit (pending.map f) ∧
      (leftover push next limit pending).map f = leftover push' next' limit (pending.map f) := by
  induction limit generalizing pending with
  | zero => exact ⟨rfl, rfl⟩
  | succ limit ih =>
      cases pending with
      | nil => exact ⟨rfl, rfl⟩
      | cons x pending =>
          have step := ih (push pending (next x))
          rw [hpush, hnext] at step
          exact ⟨congrArg (f x :: ·) step.1, step.2⟩

theorem workOff_of_leftover_nil {m n : Nat} {pending : List α} (hmn : m ≤ n)
    (h : leftover push next m pending = []) :
    workOff push next n pending = workOff push next m pending := by
  obtain ⟨k, rfl⟩ := Nat.exists_eq_add_of_le hmn
  rw [workOff_add, h, workOff_nil, List.append_nil]

section Balance

variable (hpush : ∀ pending new, (push pending new).Perm (pending ++ new))
include hpush

variable (next) in
theorem workOff_balance (limit : Nat) (pending : List α) :
    (workOff push next limit pending ++ leftover push next limit pending).Perm
      (pending ++ (workOff push next limit pending).flatMap next) := by
  induction limit generalizing pending with
  | zero => simp [workOff, leftover]
  | succ limit ih =>
      cases pending with
      | nil => simp [workOff, leftover]
      | cons x pending =>
          simp only [workOff, leftover, List.cons_append, List.flatMap_cons]
          refine List.Perm.cons x ((ih (push pending (next x))).trans ?_)
          rw [← List.append_assoc]
          exact List.Perm.append_right _ (hpush pending (next x))

theorem reaches_of_mem {limit : Nat} {pending : List α} {x : α}
    (hx : x ∈ workOff push next limit pending) :
    ∃ start ∈ pending, Relation.ReflTransGen (fun a b => b ∈ next a) start x := by
  induction limit generalizing pending with
  | zero => simp [workOff] at hx
  | succ limit ih =>
      cases pending with
      | nil => simp [workOff] at hx
      | cons y pending =>
          rcases List.mem_cons.1 hx with rfl | hx
          · exact ⟨x, List.mem_cons_self, .refl⟩
          · obtain ⟨start, hstart, hreach⟩ := ih hx
            rcases List.mem_append.1 ((hpush _ _).mem_iff.1 hstart) with h | h
            · exact ⟨start, List.mem_cons_of_mem y h, hreach⟩
            · exact ⟨y, List.mem_cons_self, .head h hreach⟩

theorem mem_of_reaches {limit : Nat} {pending : List α} {start x : α}
    (h : leftover push next limit pending = []) (hstart : start ∈ pending)
    (hreach : Relation.ReflTransGen (fun a b => b ∈ next a) start x) :
    x ∈ workOff push next limit pending := by
  have balance := workOff_balance next hpush limit pending
  rw [h, List.append_nil] at balance
  induction hreach with
  | refl => exact balance.mem_iff.2 (List.mem_append_left _ hstart)
  | tail _ hstep ih =>
      exact balance.mem_iff.2 (List.mem_append_right _ (List.mem_flatMap.2 ⟨_, ih, hstep⟩))

theorem earlier_of_mem {limit : Nat} {before after : List α} {root x : α}
    (hsplit : workOff push next limit [root] = before ++ x :: after) (hne : x ≠ root) :
    ∃ y ∈ before, x ∈ next y := by
  have hbound := length_workOff_le push next limit [root]
  rw [hsplit, List.length_append, List.length_cons] at hbound
  have hbefore : workOff push next before.length [root] = before := by
    have htake := take_workOff push next (show before.length ≤ limit by omega) [root]
    rw [hsplit, List.take_left] at htake
    exact htake.symm
  have hnext : workOff push next (before.length + 1) [root] = before ++ [x] := by
    have htake := take_workOff push next (show before.length + 1 ≤ limit by omega) [root]
    rw [hsplit, List.take_append, List.take_of_length_le (by omega)] at htake
    simpa using htake.symm
  rw [workOff_add, workOff_one, hbefore, List.append_cancel_left_eq] at hnext
  have hpending : x ∈ leftover push next before.length [root] :=
    List.mem_of_mem_take (hnext ▸ List.mem_singleton_self x)
  have hmem := (workOff_balance next hpush before.length [root]).mem_iff.1
    (List.mem_append_right _ hpending)
  rw [hbefore] at hmem
  rcases List.mem_cons.1 hmem with hroot | hmem
  · exact absurd hroot hne
  · exact List.mem_flatMap.1 hmem

end Balance

structure Branching (next : α → List α) (root : α) : Prop where
  once : ∀ x, (next x).Nodup
  apart : ∀ x y z, z ∈ next x → z ∈ next y → x = y
  root_free : ∀ x, root ∉ next x

namespace Branching

variable {root : α} (h : Branching next root)
include h

theorem nodup_flatMap {xs : List α} (hxs : xs.Nodup) : (root :: xs.flatMap next).Nodup := by
  refine List.nodup_cons.2 ⟨?_, List.nodup_flatMap.2 ⟨fun x _ => h.once x, ?_⟩⟩
  · intro hroot
    obtain ⟨x, -, hx⟩ := List.mem_flatMap.1 hroot
    exact h.root_free x hx
  · refine hxs.imp fun hne => ?_
    intro z hx hy
    exact hne (h.apart _ _ z hx hy)

variable (hpush : ∀ pending new, (push pending new).Perm (pending ++ new))
include hpush

theorem nodup_workOff (limit : Nat) :
    (workOff push next limit [root] ++ leftover push next limit [root]).Nodup := by
  induction limit with
  | zero => simp [workOff, leftover]
  | succ limit ih =>
      refine (workOff_balance next hpush (limit + 1) [root]).nodup_iff.2 (h.nodup_flatMap ?_)
      rw [workOff_add, workOff_one]
      exact ih.sublist (List.Sublist.append_left (List.take_sublist _ _) _)

end Branching

end SpanForest.Worklist
