import SpanForest.Proofs.Text.Lines
import SpanForest.Proofs.Text.Lowercase
import SpanForest.Span.Id

/-!
The one form of an id is its own form: nothing is left to trim, to lower or to pad.
-/

namespace SpanForest

namespace Text

theorem getLast?_lowerFrom {t : Text} (h : ∀ p ∈ t.getLast?, p.meets isBlank = false)
    (before : Text) : ∀ d ∈ (lowerFrom before t).getLast?, d.meets isBlank = false := by
  induction t generalizing before with
  | nil => exact nofun
  | cons c cs ih =>
      obtain ⟨here, heq, -, hhere⟩ := lowerFrom_cons before c cs
      intro d hd
      rw [heq, List.getLast?_append, Option.mem_def, Option.or_eq_some_iff] at hd
      rcases hd with hd | ⟨hnone, hd⟩
      · refine ih (fun e he => h e ?_) _ d hd
        rw [List.getLast?_cons, Option.mem_def.1 he]
        rfl
      · cases cs with
        | nil => exact (hhere d (List.mem_of_getLast? hd)).2 (h c rfl)
        | cons e cs =>
            have hne := lowerFrom_ne_nil (c :: before) (List.cons_ne_nil e cs)
            exact absurd (List.getLast?_eq_none_iff.1 hnone) hne

theorem EndsShown.lower {t : Text} (h : EndsShown (·.meets isBlank) t) :
    EndsShown (·.meets isBlank) (lower t) where
  first d hd := by
    cases t with
    | nil => cases hd
    | cons c cs =>
        obtain ⟨here, heq, hne, hhere⟩ := lowerFrom_cons [] c cs
        obtain ⟨e, rest, rfl⟩ := List.exists_cons_of_ne_nil hne
        rw [Text.lower, heq] at hd
        obtain rfl : e = d := Option.some.inj hd
        exact (hhere e List.mem_cons_self).2 (h.first c rfl)
  last := getLast?_lowerFrom h.last []

end Text

namespace Id

open Text

theorem width_cases (n : Nat) : (n < 16 ∧ width n = 16) ∨ (16 < n ∧ n < 32 ∧ width n = 32) ∨
    ((n = 16 ∨ 32 ≤ n) ∧ width n = n) := by
  unfold width narrow wide
  split
  · omega
  · split
    · omega
    · omega

theorem width_width (n : Nat) : width (width n) = width n := by
  have hn := width_cases n
  have hwidth := width_cases (width n)
  omega

theorem pad_pad (t : Text) : pad (pad t) = pad t := by
  rw [pad, length_pad, width_width, Nat.sub_self]
  rfl

theorem endsShown_pad {t : Text} (h : EndsShown (·.meets isBlank) t) :
    EndsShown (·.meets isBlank) (pad t) := by
  refine (endsShown_of_forall fun p hp => ?_).append h
  rw [List.eq_of_mem_replicate hp]
  decide

theorem lower_pad {t : Text} (h : ∀ p ∈ t, IsLoweredPoint p) : lower (pad t) = pad t := by
  have hzero : IsLoweredPoint (.char '0') := by
    unfold IsLoweredPoint IsLowered
    decide +kernel
  refine lowerFrom_of_isLowered [] fun p hp => ?_
  rcases List.mem_append.1 hp with hp | hp
  · rwa [List.eq_of_mem_replicate hp]
  · exact h p hp

theorem length_pad_ne_zero (t : Text) : (pad t).length ≠ 0 := by
  have hwidth := width_cases t.length
  rw [length_pad]
  omega

theorem normal_ne_nil {t : Text} (h : t ≠ []) : normal t ≠ [] := by
  rw [normal, if_neg h]
  intro hempty
  exact length_pad_ne_zero _ (congrArg List.length hempty)

theorem normal_normal (t : Text) : normal (normal t) = normal t := by
  by_cases h : t = []
  · rw [h, normal_nil, normal_nil]
  · have hshown := endsShown_pad (endsShown_trimBy (·.meets isBlank) t).lower
    have htrim : trim (pad (lower (trim t))) = pad (lower (trim t)) := hshown.trimBy
    have hlowered : lower (pad (lower (trim t))) = pad (lower (trim t)) :=
      lower_pad fun _ => isLowered_of_mem_lowerFrom
    rw [normal, if_neg (normal_ne_nil h), normal, if_neg h, htrim, hlowered, pad_pad]

theorem normal_of_ofValue {v : Value} {id : Text} (h : ofValue v = .ok id) : normal id = id := by
  unfold ofValue at h
  split at h
  · split at h
    · exact Except.ok.inj h ▸ normal_normal _
    · cases h
  · exact Except.ok.inj h ▸ normal_nil

end Id

end SpanForest
