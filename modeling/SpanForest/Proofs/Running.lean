import SpanForest.Fault

/-!
Runs of work that may end in a fault and keeps a state meanwhile, one step after the other, and what
is known of the value or the fault in which it ends.
-/

namespace SpanForest

variable {σ α β : Type}

theorem run_bind_ok {x : ExceptT Fault (StateM σ) α} {f : α → ExceptT Fault (StateM σ) β}
    {p q : σ} {a : α} (h : x.run.run p = (.ok a, q)) : (x >>= f).run.run p = (f a).run.run q := by
  show (x.run >>= ExceptT.bindCont f).run p = (f a).run.run q
  rw [StateT.run_bind, h]
  rfl

theorem run_bind_error {x : ExceptT Fault (StateM σ) α} {f : α → ExceptT Fault (StateM σ) β}
    {p q : σ} {e : Fault} (h : x.run.run p = (.error e, q)) :
    (x >>= f).run.run p = (.error e, q) := by
  show (x.run >>= ExceptT.bindCont f).run p = (.error e, q)
  rw [StateT.run_bind, h]
  rfl

theorem run_map_ok {x : ExceptT Fault (StateM σ) α} (f : α → β) {p q : σ} {a : α}
    (h : x.run.run p = (.ok a, q)) : (f <$> x).run.run p = (.ok (f a), q) := by
  rw [map_eq_pure_bind, run_bind_ok h]
  rfl

theorem run_lift {e : Except Fault α} {a : α} (h : e = .ok a) (p : σ) :
    (liftM e : ExceptT Fault (StateM σ) α).run.run p = (.ok a, p) := by
  rw [h]
  rfl

theorem eq_ok_of_toOption {x : Except Fault α} {a : α} (h : x.toOption = some a) : x = .ok a := by
  cases x with
  | error e => cases h
  | ok b => rw [Option.some.inj h]

theorem exists_of_bind_ok {x : Except Fault α} {f : α → Except Fault β} {b : β}
    (h : (x >>= f) = .ok b) : ∃ a, x = .ok a ∧ f a = .ok b := by
  cases x with
  | error e => cases h
  | ok a => exact ⟨a, rfl, h⟩

theorem exists_of_run_bind_ok {x : ExceptT Fault (StateM σ) α} {f : α → ExceptT Fault (StateM σ) β}
    {p r : σ} {b : β} (h : (x >>= f).run.run p = (.ok b, r)) :
    ∃ a q, x.run.run p = (.ok a, q) ∧ (f a).run.run q = (.ok b, r) := by
  cases hrun : x.run.run p with
  | mk outcome q =>
      cases outcome with
      | error e =>
          rw [run_bind_error hrun] at h
          cases h
      | ok a => exact ⟨a, q, rfl, (run_bind_ok hrun).symm.trans h⟩

theorem exists_eq_ok {run : Except Fault α × σ} {a : α} (h : run.1.toOption = some a) :
    ∃ after, run = (.ok a, after) := by
  exact ⟨run.2, Prod.ext (eq_ok_of_toOption h) rfl⟩

def Ends {ε : Type} (E : ε → Prop) (Q : α → Prop) : Except ε α → Prop
  | .ok a => Q a
  | .error e => E e

namespace Ends

variable {ε : Type} {E : ε → Prop} {Q Q' : α → Prop} {R : β → Prop} {x : Except ε α}

theorem imp (hQ : ∀ a, Q a → Q' a) (h : Ends E Q x) : Ends E Q' x := by
  cases x with
  | error e => exact h
  | ok a => exact hQ a h

theorem of_ok {a : α} (h : Ends E Q x) (hx : x = .ok a) : Q a := by
  rw [hx] at h
  exact h

theorem of_error {e : ε} (h : Ends E Q x) (hx : x = .error e) : E e := by
  rw [hx] at h
  exact h

theorem bind_of_eq {f : α → Except ε β} (h : Ends E Q x) (hf : ∀ a, x = .ok a → Ends E R (f a)) :
    Ends E R (x >>= f) := by
  cases x with
  | error e => exact h
  | ok a => exact hf a rfl

theorem bind {f : α → Except ε β} (h : Ends E Q x) (hf : ∀ a, Q a → Ends E R (f a)) :
    Ends E R (x >>= f) :=
  h.bind_of_eq fun a ha => hf a (h.of_ok ha)

end Ends

end SpanForest
