import SpanForest.Proofs.Span.Annotations

/-!
Joining parts in any bracketing. Each field of two parts joined is chosen from theirs in a way that
is associative, so parts that are joined in groups first come to the same span as parts that are
joined one by one.
-/

namespace SpanForest

namespace Endpoint

theorem combine_assoc (e f g : Endpoint) : (e.combine f).combine g = e.combine (f.combine g) := by
  simp only [combine, Value.orElse_assoc, mk.injEq, true_and]
  by_cases h : e.port.isNull = true <;> simp [h]

theorem combineOption_assoc (e f g : Option Endpoint) :
    combineOption (combineOption e f) g = combineOption e (combineOption f g) := by
  cases e with
  | none => rfl
  | some e =>
      cases f with
      | none => rfl
      | some f =>
          cases g with
          | none => rfl
          | some g => exact congrArg some (combine_assoc e f g)

end Endpoint

namespace Span

theorem combineName_assoc (u v w : Value) :
    combineName (combineName u v) w = combineName u (combineName v w) := by
  cases hu : isTelling u with
  | true =>
      rw [keepsFirst_combineName.first u v hu, keepsFirst_combineName.first u w hu,
        keepsFirst_combineName.first u _ hu]
  | false =>
      cases hv : isTelling v with
      | true =>
          have hset : v.isSet = true := (Bool.and_eq_true_iff.1 hv).1
          rw [keepsFirst_combineName.second u v hu hv, keepsFirst_combineName.first v w hv,
            combineName_of_not_isTelling hu, Value.orElse_of_isSet hset]
      | false =>
          -- neither name says anything, so the last one is taken if it is set
          have huv : isTelling (combineName u v) = false := keepsFirst_combineName.neither u v hu hv
          rw [combineName_of_not_isTelling huv, combineName_of_not_isTelling hu,
            combineName_of_not_isTelling hu, combineName_of_not_isTelling hv, Value.orElse_assoc]

theorem isSet_combineFlag (v w : Value) : (combineFlag v w).isSet = (v.isSet || w.isSet) := by
  rw [combineFlag]
  split
  · next h => exact h.symm
  · next h =>
      rw [Bool.not_eq_true, Bool.or_eq_false_iff] at h
      rw [h.1, h.2, Bool.or_false]

theorem combineFlag_assoc (u v w : Value) :
    combineFlag (combineFlag u v) w = combineFlag u (combineFlag v w) := by
  have hleft := isSet_combineFlag u v
  have hright := isSet_combineFlag v w
  by_cases huv : (u.isSet || v.isSet) = true
  · have hany : (u.isSet || (combineFlag v w).isSet) = true := by
      rw [hright, ← Bool.or_assoc, huv, Bool.true_or]
    have hflag : combineFlag (combineFlag u v) w = .bool true := if_pos (by rw [hleft, huv, Bool.true_or])
    exact hflag.trans (if_pos hany).symm
  · have hself : combineFlag u v = u := if_neg huv
    rw [Bool.not_eq_true, Bool.or_eq_false_iff] at huv
    rw [hself, combineFlag, combineFlag, hright, huv.2, Bool.false_or]

theorem joined_assoc {r s t : Span} (hr : r.WellTyped) (hs : s.WellTyped) (ht : t.WellTyped) :
    (r.joined s).joined t = r.joined (s.joined t) := by
  simp only [joined, Value.orElse_assoc, combineName_assoc, Endpoint.combineOption_assoc,
    combineFlag_assoc, Table.update_assoc r.tags hs.tagNames,
    Annotation.united_assoc hr.annotations hs.annotations ht.annotations]

end Span

end SpanForest
