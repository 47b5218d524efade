import Mathlib.Data.List.Lex
import Mathlib.Data.Prod.Lex
import Mathlib.Order.WithBot
import SpanForest.Proofs.Sorting
import SpanForest.Span.CleanupOrder

/-!
The cleanup order as the order of a key: the id, then the side, then the local endpoint without its
port, each part deciding only between equals and a missing part below all others. On spans of the
declared kinds the two orders are one. So sorting by the cleanup order never fails, its result is in
order, and what is in order is left alone.
-/

namespace SpanForest

theorem CodePoint.toNat_injective : Function.Injective CodePoint.toNat := by
  intro p q h
  cases p with
  | char c =>
      have hc : c.toNat < 0xd800 ∨ 0xdfff < c.toNat ∧ c.toNat < 0x110000 := c.valid
      cases q with
      | char d => exact congrArg CodePoint.char (Char.toNat_inj.1 h)
      | half n =>
          simp only [toNat, firstHalf] at h
          omega
  | half n =>
      cases q with
      | char d =>
          have hd : d.toNat < 0xd800 ∨ 0xdfff < d.toNat ∧ d.toNat < 0x110000 := d.valid
          simp only [toNat, firstHalf] at h
          omega
      | half m => exact congrArg CodePoint.half (Fin.ext (Nat.add_left_cancel h))

instance : LinearOrder CodePoint := LinearOrder.lift' CodePoint.toNat CodePoint.toNat_injective

theorem decide_toLex_lt {α β : Type} [LinearOrder α] [LinearOrder β] (x y : α) (a b : β)
    [Decidable (x < y)] [Decidable (a < b)] :
    decide (toLex (x, a) < toLex (y, b)) = if x = y then decide (a < b) else decide (x < y) := by
  split
  · next h => simp [Prod.Lex.toLex_lt_toLex, h]
  · next h => simp [Prod.Lex.toLex_lt_toLex, h]

namespace Value

def optionalText : Value → WithBot Text
  | .string s => s
  | _ => ⊥

def textOrEmpty : Value → Text
  | .string s => s
  | _ => []

end Value

namespace Endpoint

abbrev CleanupKey := WithBot Text ×ₗ WithBot Text ×ₗ WithBot Text

def cleanupKey (e : Endpoint) : CleanupKey :=
  toLex (e.serviceName.optionalText, toLex (e.ipv4.optionalText, e.ipv6.optionalText))

theorem fieldBefore_eq {v w : Value} (hv : v.IsOptionalString) (hw : w.IsOptionalString)
    (later : Bool) :
    fieldBefore v w (.ok later) = .ok (if v.optionalText = w.optionalText then later
      else decide (v.optionalText < w.optionalText)) := by
  cases hv with
  | absent =>
      cases hw with
      | absent => rfl
      | present t => simp [fieldBefore, Value.isNull, Value.optionalText]
  | present s =>
      cases hw with
      | absent => simp [fieldBefore, Value.isNull, Value.optionalText]
      | present t =>
          simp only [fieldBefore, Value.isNull, Value.optionalText, Value.same_string, beq_iff_eq,
            WithBot.coe_inj, Value.before_string, WithBot.coe_lt_coe]
          split <;> rfl

theorem before_eq {e f : Endpoint} (he : e.WellTyped) (hf : f.WellTyped) :
    e.before f = .ok (decide (e.cleanupKey < f.cleanupKey)) := by
  rw [before, fieldBefore_eq he.ipv6 hf.ipv6, fieldBefore_eq he.ipv4 hf.ipv4,
    fieldBefore_eq he.serviceName hf.serviceName, cleanupKey, cleanupKey, decide_toLex_lt,
    decide_toLex_lt]
  congr 3
  split
  · next h => rw [h, decide_eq_false (lt_irrefl _)]
  · rfl

/-- The key of an endpoint that may be missing. -/
def optionalKey : Option Endpoint → WithBot CleanupKey
  | none => ⊥
  | some e => e.cleanupKey

theorem beforeOption_eq {e f : Option Endpoint} (he : ∀ x ∈ e, x.WellTyped)
    (hf : ∀ x ∈ f, x.WellTyped) :
    beforeOption e f = .ok (decide (optionalKey e < optionalKey f)) := by
  cases f with
  | none => simp [beforeOption, optionalKey]
  | some f =>
      cases e with
      | none => exact congrArg Except.ok (decide_eq_true (WithBot.bot_lt_coe f.cleanupKey)).symm
      | some e =>
          rw [beforeOption, before_eq (he e rfl) (hf f rfl)]
          exact congrArg Except.ok (decide_eq_decide.2 WithBot.coe_lt_coe.symm)

end Endpoint

namespace Span

def cleanupKey (s : Span) : Text ×ₗ Bool ×ₗ WithBot Endpoint.CleanupKey :=
  toLex (s.id.textOrEmpty, toLex (s.isShared, Endpoint.optionalKey s.localEndpoint))

theorem cleanupKey_eq {s : Span} {i : Text} (hi : s.id = .string i) :
    s.cleanupKey = toLex (i, toLex (s.isShared, Endpoint.optionalKey s.localEndpoint)) := by
  rw [cleanupKey, hi, Value.textOrEmpty]

theorem cleanupBefore_eq {s t : Span} (hs : s.WellTyped) (ht : t.WellTyped) :
    s.cleanupBefore t = .ok (Sorting.byKey cleanupKey s t) := by
  obtain ⟨i, hi⟩ := hs.id
  obtain ⟨j, hj⟩ := ht.id
  rw [cleanupBefore, Endpoint.beforeOption_eq hs.localEndpoint ht.localEndpoint, Sorting.byKey,
    cleanupKey_eq hi, cleanupKey_eq hj, decide_toLex_lt, decide_toLex_lt, hi, hj,
    Value.same_string, Value.before_string]
  by_cases hid : i = j
  · rw [if_pos (beq_iff_eq.2 hid), if_pos hid]
    cases s.isShared <;> cases t.isShared <;> rfl
  · rw [if_neg (mt beq_iff_eq.1 hid), if_neg hid]

variable {spans : List Span} (typed : ∀ s ∈ spans, s.WellTyped)
include typed

theorem cleanupSort_eq :
    cleanupSort spans = .ok (Sorting.sortStable (Sorting.byKey cleanupKey) spans) := by
  rw [cleanupSort_wellTyped typed]
  refine congrArg Except.ok (Sorting.sortStable_congr fun s hs t ht => ?_)
  rw [Sorting.holds, cleanupBefore_eq (typed s hs) (typed t ht)]

theorem perm_of_cleanupSort {ordered : List Span} (h : cleanupSort spans = .ok ordered) :
    ordered.Perm spans := by
  rw [cleanupSort_eq typed, Except.ok.injEq] at h
  exact h ▸ Sorting.sortStable_perm _ spans

theorem cleanupSort_of_inOrder (h : Sorting.InOrder cleanupKey spans) :
    cleanupSort spans = .ok spans := by
  rw [cleanupSort_eq typed, Sorting.sortStable_of_inOrder cleanupKey h]

theorem inOrder_iff : Sorting.InOrder cleanupKey spans ↔
    spans.Pairwise fun s t => t.cleanupBefore s = .ok false := by
  refine List.Pairwise.iff_of_mem fun {s t} hs ht => ?_
  rw [cleanupBefore_eq (typed t ht) (typed s hs), Except.ok.injEq, Sorting.byKey,
    decide_eq_false_iff_not, not_lt]

end Span

end SpanForest
