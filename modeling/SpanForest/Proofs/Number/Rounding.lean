import Mathlib.Algebra.Order.Field.Power
import Mathlib.Tactic.FieldSimp
import Mathlib.Tactic.Linarith
import Mathlib.Tactic.Positivity
import Mathlib.Tactic.Ring
import SpanForest.Number.Binary64

/-!
Rounding a ratio to 64 bits. The ratio has one scale, the exponent at which its significand uses all
bits or the least one there is, and its significand is the nearest integer at that scale. All
numbers here are rational, so nothing is lost before the one rounding.
-/

namespace SpanForest

namespace Binary64

/-- A number in the one form that rounding gives it: all bits of the significand are used unless the
exponent is the least one. -/
structure IsNormal (significand : Nat) (exponent : Int) : Prop where
  bound : significand < significandBound
  least : leastExponent ≤ exponent
  greatest : exponent ≤ greatestExponent
  full : fullSignificand ≤ significand ∨ exponent = leastExponent

/-- A number that rounding gives. -/
def Canonical : Binary64 → Prop
  | .nan => False
  | .infinite _ => True
  | .finite _ significand exponent => IsNormal significand exponent

theorem pow_toNat_div_pow_toNat {b : ℚ} (hb : b ≠ 0) (e : ℤ) :
    b ^ e.toNat / b ^ (-e).toNat = b ^ e := by
  have hsplit : (e.toNat : ℤ) - (-e).toNat = e := by omega
  rw [← zpow_natCast, ← zpow_natCast, ← zpow_sub₀ hb, hsplit]

theorem inUnits_fst (num den : ℕ) (e : ℤ) : (inUnits num den e).1 = num * 2 ^ (-e).toNat := rfl

theorem inUnits_snd (num den : ℕ) (e : ℤ) : (inUnits num den e).2 = den * 2 ^ e.toNat := rfl

theorem inUnits_snd_pos (num : ℕ) {den : ℕ} (hden : 0 < den) (e : ℤ) :
    0 < (inUnits num den e).2 := by
  rw [inUnits_snd]
  positivity

theorem inUnits_ratio (num den : ℕ) (e : ℤ) :
    ((inUnits num den e).1 : ℚ) / (inUnits num den e).2 = (num : ℚ) / den / 2 ^ e := by
  rw [inUnits_fst, inUnits_snd, ← pow_toNat_div_pow_toNat (two_ne_zero : (2 : ℚ) ≠ 0) e]
  push_cast
  field_simp

def IsNearest (x : ℚ) (n : ℕ) : Prop := |x - n| ≤ 1 / 2 ∧ (|x - n| = 1 / 2 → n % 2 = 0)

theorem IsNearest.unique {x : ℚ} {m n : ℕ} (hm : IsNearest x m) (hn : IsNearest x n) : m = n := by
  have hdist : |(m : ℚ) - n| ≤ |x - m| + |x - n| := by
    rw [abs_sub_comm x m]
    exact abs_sub_le (m : ℚ) x n
  by_contra hne
  have hone : (1 : ℚ) ≤ |(m : ℚ) - n| := by
    exact_mod_cast Int.one_le_abs (show (m : ℤ) - n ≠ 0 by omega)
  have hm' : |x - m| = 1 / 2 := by linarith [hm.1, hn.1]
  have hn' : |x - n| = 1 / 2 := by linarith [hm.1, hn.1]
  have hclose : |(m : ℤ) - n| ≤ 1 := by
    have hone : |(m : ℚ) - n| ≤ 1 := by linarith [hm.1, hn.1]
    exact_mod_cast hone
  rw [abs_le] at hclose
  have hmeven := hm.2 hm'
  have hneven := hn.2 hn'
  omega

theorem isNearest_of_abs_lt {x : ℚ} {n : ℕ} (h : |x - n| < 1 / 2) : IsNearest x n :=
  ⟨h.le, fun hend => absurd hend h.ne⟩

theorem isNearest_even (n : ℕ) : IsNearest ((n : ℚ) + 1 / 2) (n + n % 2) := by
  constructor
  · rcases Nat.mod_two_eq_zero_or_one n with h | h
    · rw [h, Nat.add_zero, add_sub_cancel_left, abs_of_pos one_half_pos]
    · rw [h, abs_le]
      push_cast
      constructor
      · linarith
      · linarith
  · intro _
    omega

theorem ratio_eq_add (num : ℕ) {den : ℕ} (hden : 0 < den) :
    (num : ℚ) / den = (num / den : ℕ) + ((num % den : ℕ) : ℚ) / den := by
  have hpos : (0 : ℚ) < den := by exact_mod_cast hden
  have h : (num : ℚ) = den * (num / den : ℕ) + (num % den : ℕ) := by
    exact_mod_cast (Nat.div_add_mod num den).symm
  rw [div_eq_iff hpos.ne', add_mul, div_mul_cancel₀ _ hpos.ne']
  linarith

theorem isNearest_roundDiv (num : ℕ) {den : ℕ} (hden : 0 < den) :
    IsNearest (num / den) (roundDiv num den) := by
  have hpos : (0 : ℚ) < den := by exact_mod_cast hden
  have hfraction : (0 : ℚ) ≤ ((num % den : ℕ) : ℚ) / den := by positivity
  have hbelow : ((num % den : ℕ) : ℚ) / den < 1 := by
    rw [div_lt_one hpos]
    exact_mod_cast Nat.mod_lt num hden
  rw [ratio_eq_add num hden, roundDiv]
  split
  · next hlow =>
    have hhalf : ((num % den : ℕ) : ℚ) / den < 1 / 2 := by
      rw [div_lt_iff₀ hpos]
      have h : (2 : ℚ) * (num % den : ℕ) < den := by exact_mod_cast hlow
      linarith
    refine isNearest_of_abs_lt ?_
    rwa [add_sub_cancel_left, abs_of_nonneg hfraction]
  · split
    · next hhigh =>
      have hhalf : 1 / 2 < ((num % den : ℕ) : ℚ) / den := by
        rw [lt_div_iff₀ hpos]
        have h : (den : ℚ) < 2 * (num % den : ℕ) := by exact_mod_cast hhigh
        linarith
      refine isNearest_of_abs_lt (abs_lt.2 ?_)
      push_cast
      constructor
      · linarith
      · linarith
    · next hlow hhigh =>
      have hhalf : ((num % den : ℕ) : ℚ) / den = 1 / 2 := by
        rw [div_eq_iff hpos.ne']
        have h : (2 : ℚ) * (num % den : ℕ) = den := by
          exact_mod_cast Nat.le_antisymm (Nat.not_lt.1 hhigh) (Nat.not_lt.1 hlow)
        linarith
      rw [hhalf]
      exact isNearest_even _

structure IsScale (x : ℚ) (e : ℤ) : Prop where
  least : leastExponent ≤ e
  bound : x < 2 ^ (53 : ℕ) * 2 ^ e
  full : 2 ^ (52 : ℕ) * 2 ^ e ≤ x ∨ e = leastExponent

theorem pow_mul_zpow (n : ℕ) (e : ℤ) : (2 : ℚ) ^ n * 2 ^ e = 2 ^ (n + e) := by
  rw [zpow_add₀ two_ne_zero, zpow_natCast]

theorem IsScale.le {x : ℚ} {e f : ℤ} (he : IsScale x e) (hf : IsScale x f) : e ≤ f := by
  rcases he.full with h | h
  · have hlt := h.trans_lt hf.bound
    rw [pow_mul_zpow, pow_mul_zpow, zpow_lt_zpow_iff_right₀ one_lt_two] at hlt
    omega
  · rw [h]
    exact hf.least

theorem IsScale.unique {x : ℚ} {e f : ℤ} (he : IsScale x e) (hf : IsScale x f) : e = f :=
  le_antisymm (he.le hf) (hf.le he)

def carry (negative : Bool) (significand : ℕ) (exponent : ℤ) : Binary64 :=
  if significand = significandBound then pack negative fullSignificand (exponent + 1)
  else pack negative significand exponent

theorem log2_ratio {num den : ℕ} (hnum : 0 < num) (hden : 0 < den) :
    (2 : ℚ) ^ ((num.log2 : ℤ) - den.log2 - 1) < num / den ∧
      (num : ℚ) / den < 2 ^ ((num.log2 : ℤ) - den.log2 + 1) := by
  have hpos : (0 : ℚ) < den := by exact_mod_cast hden
  have hnumlow : (2 : ℚ) ^ num.log2 ≤ num := by exact_mod_cast Nat.log2_self_le hnum.ne'
  have hnumhigh : (num : ℚ) < 2 ^ (num.log2 + 1) := by exact_mod_cast Nat.lt_log2_self
  have hdenlow : (2 : ℚ) ^ den.log2 ≤ den := by exact_mod_cast Nat.log2_self_le hden.ne'
  have hdenhigh : (den : ℚ) < 2 ^ (den.log2 + 1) := by exact_mod_cast Nat.lt_log2_self
  constructor
  · rw [lt_div_iff₀ hpos]
    calc (2 : ℚ) ^ ((num.log2 : ℤ) - den.log2 - 1) * den
        < 2 ^ ((num.log2 : ℤ) - den.log2 - 1) * 2 ^ (den.log2 + 1) := by gcongr
      _ = 2 ^ num.log2 := by
        rw [← zpow_natCast, ← zpow_natCast, ← zpow_add₀ two_ne_zero]
        congr 1
        push_cast
        ring
      _ ≤ num := hnumlow
  · rw [div_lt_iff₀ hpos]
    calc (num : ℚ) < 2 ^ (num.log2 + 1) := hnumhigh
      _ = 2 ^ ((num.log2 : ℤ) - den.log2 + 1) * 2 ^ den.log2 := by
        rw [← zpow_natCast, ← zpow_natCast, ← zpow_add₀ two_ne_zero]
        congr 1
        push_cast
        ring
      _ ≤ 2 ^ ((num.log2 : ℤ) - den.log2 + 1) * den := by gcongr

theorem ofRatio_spec (negative : Bool) {num den : ℕ} (hnum : 0 < num) (hden : 0 < den) :
    ∃ e n, IsScale (num / den) e ∧ IsNearest ((num : ℚ) / den / 2 ^ e) n ∧
      ofRatio negative num den = carry negative n e := by
  obtain ⟨hlow, hhigh⟩ := log2_ratio hnum hden
  rw [ofRatio, if_neg hnum.ne']
  generalize hfirst : max ((num.log2 : ℤ) - den.log2 - 53) leastExponent = low
  have hleast : leastExponent ≤ low := hfirst ▸ le_max_right _ _
  have hpos := inUnits_snd_pos num hden low
  have htest : significandBound ≤ (inUnits num den low).1 / (inUnits num den low).2 ↔
      (2 : ℚ) ^ (53 : ℕ) * 2 ^ low ≤ num / den := by
    have hunits : (0 : ℚ) < (inUnits num den low).2 := by exact_mod_cast hpos
    rw [Nat.le_div_iff_mul_le hpos, ← le_div_iff₀ (by positivity), ← inUnits_ratio,
      le_div_iff₀ hunits]
    norm_cast
  -- the estimate by binary logarithms is right or one too low
  have hscale : IsScale ((num : ℚ) / den) (if significandBound ≤
      (inUnits num den low).1 / (inUnits num den low).2 then low + 1 else low) := by
    split
    · next h =>
      refine ⟨by omega, hhigh.trans_le ?_, .inl ?_⟩
      · rw [pow_mul_zpow, zpow_le_zpow_iff_right₀ one_lt_two]
        omega
      · rw [pow_mul_zpow] at htest ⊢
        have hsum : ((53 : ℕ) : ℤ) + low = (52 : ℕ) + (low + 1) := by omega
        exact hsum ▸ htest.1 h
    · next h =>
      refine ⟨hleast, not_le.1 fun hle => h (htest.2 hle), ?_⟩
      rcases max_choice ((num.log2 : ℤ) - den.log2 - 53) leastExponent with hmax | hmax
      · refine .inl (le_trans ?_ hlow.le)
        rw [pow_mul_zpow, zpow_le_zpow_iff_right₀ one_lt_two]
        omega
      · exact .inr (hfirst.symm.trans hmax)
  exact ⟨_, _, hscale, inUnits_ratio num den _ ▸ isNearest_roundDiv _ (inUnits_snd_pos num hden _), rfl⟩

theorem IsNearest.le_of_le {x : ℚ} {n m : ℕ} (h : IsNearest x n) (hm : m ≤ x) : m ≤ n := by
  have hdist := abs_le.1 h.1
  have hlt : (m : ℚ) < n + 1 := by linarith
  exact Nat.lt_succ_iff.1 (by exact_mod_cast hlt)

theorem IsNearest.le_of_ge {x : ℚ} {n m : ℕ} (h : IsNearest x n) (hm : x ≤ m) : n ≤ m := by
  have hdist := abs_le.1 h.1
  have hlt : (n : ℚ) < m + 1 := by linarith
  exact Nat.lt_succ_iff.1 (by exact_mod_cast hlt)

theorem canonical_pack (negative : Bool) {significand : ℕ} {exponent : ℤ}
    (bound : significand < significandBound) (least : leastExponent ≤ exponent)
    (full : fullSignificand ≤ significand ∨ exponent = leastExponent) :
    (pack negative significand exponent).Canonical := by
  rw [pack]
  split
  · trivial
  · next h => exact ⟨bound, least, not_lt.1 h, full⟩

theorem canonical_carry (negative : Bool) {x : ℚ} {e : ℤ} {n : ℕ} (hscale : IsScale x e)
    (hn : IsNearest (x / 2 ^ e) n) : (carry negative n e).Canonical := by
  have hpos : (0 : ℚ) < 2 ^ e := by positivity
  have hbound : n ≤ significandBound :=
    hn.le_of_ge (by exact_mod_cast ((div_lt_iff₀ hpos).2 hscale.bound).le)
  rw [carry]
  split
  · exact canonical_pack negative (by decide) (by linarith [hscale.least]) (.inl le_rfl)
  · next hne =>
    refine canonical_pack negative (lt_of_le_of_ne hbound hne) hscale.least ?_
    refine hscale.full.imp_left fun h => hn.le_of_le ?_
    exact_mod_cast (le_div_iff₀ hpos).2 h

theorem canonical_ofRatio (negative : Bool) (num : ℕ) {den : ℕ} (hden : 0 < den) :
    (ofRatio negative num den).Canonical := by
  rcases Nat.eq_zero_or_pos num with rfl | hnum
  · exact ⟨by decide, le_rfl, by decide, .inr rfl⟩
  · obtain ⟨e, n, hscale, hn, heq⟩ := ofRatio_spec negative hnum hden
    rw [heq]
    exact canonical_carry negative hscale hn

theorem IsNormal.magnitude_bounds {significand : ℕ} {exponent : ℤ}
    (normal : IsNormal significand exponent) (pos : 0 < significand) :
    (2 : ℚ) ^ leastExponent ≤ significand * 2 ^ exponent ∧
      (significand : ℚ) * 2 ^ exponent < 2 ^ (53 + greatestExponent) := by
  have hpos : (0 : ℚ) < 2 ^ exponent := by positivity
  constructor
  · calc (2 : ℚ) ^ leastExponent ≤ 2 ^ exponent := zpow_le_zpow_right₀ one_le_two normal.least
      _ ≤ significand * 2 ^ exponent := le_mul_of_one_le_left hpos.le (by exact_mod_cast pos)
  · calc (significand : ℚ) * 2 ^ exponent < 2 ^ (53 : ℕ) * 2 ^ exponent :=
          mul_lt_mul_of_pos_right (by exact_mod_cast normal.bound) hpos
      _ ≤ 2 ^ (53 : ℕ) * 2 ^ greatestExponent := by
          gcongr
          · exact one_le_two
          · exact normal.greatest
      _ = 2 ^ (53 + greatestExponent) := pow_mul_zpow 53 greatestExponent

def reachBelow (significand : ℕ) (exponent : ℤ) : ℚ :=
  if significand = fullSignificand ∧ leastExponent < exponent then 1 / 4 else 1 / 2

def RoundsTo (significand : ℕ) (exponent : ℤ) (x : ℚ) : Prop :=
  if significand % 2 = 0 then
    (significand - reachBelow significand exponent) * 2 ^ exponent ≤ x ∧
      x ≤ (significand + 1 / 2) * 2 ^ exponent
  else
    (significand - reachBelow significand exponent) * 2 ^ exponent < x ∧
      x < (significand + 1 / 2) * 2 ^ exponent

theorem reachBelow_le (significand : ℕ) (exponent : ℤ) : reachBelow significand exponent ≤ 1 / 2 := by
  rw [reachBelow]
  split
  · norm_num
  · exact le_rfl

section

variable {significand : ℕ} {exponent : ℤ} {x : ℚ}

theorem RoundsTo.between (h : RoundsTo significand exponent x) :
    significand - reachBelow significand exponent ≤ x / 2 ^ exponent ∧
      x / 2 ^ exponent ≤ significand + 1 / 2 := by
  have hpos : (0 : ℚ) < 2 ^ exponent := by positivity
  rw [le_div_iff₀ hpos, div_le_iff₀ hpos]
  rw [RoundsTo] at h
  split at h
  · exact h
  · exact ⟨h.1.le, h.2.le⟩

theorem RoundsTo.isNearest (h : RoundsTo significand exponent x) :
    IsNearest (x / 2 ^ exponent) significand := by
  have hpos : (0 : ℚ) < 2 ^ exponent := by positivity
  have hreach := reachBelow_le significand exponent
  obtain ⟨hlow, hhigh⟩ := h.between
  refine ⟨abs_le.2 ⟨by linarith, by linarith⟩, fun hend => ?_⟩
  by_contra hodd
  rw [RoundsTo, if_neg hodd, ← lt_div_iff₀ hpos, ← div_lt_iff₀ hpos] at h
  have hinside : |x / 2 ^ exponent - significand| < 1 / 2 :=
    abs_lt.2 ⟨by linarith [h.1], by linarith [h.2]⟩
  exact hinside.ne hend

theorem RoundsTo.bounds (h : RoundsTo significand exponent x) (pos : 0 < significand)
    (normal : IsNormal significand exponent) : (2 : ℚ) ^ (-1075 : ℤ) ≤ x ∧ x < 2 ^ (1024 : ℤ) := by
  have hpos : (0 : ℚ) < 2 ^ exponent := by positivity
  obtain ⟨hlow, hhigh⟩ := h.between
  rw [le_div_iff₀ hpos] at hlow
  rw [div_le_iff₀ hpos] at hhigh
  have hone : (1 : ℚ) ≤ significand := by exact_mod_cast pos
  have hbound : (significand : ℚ) + 1 ≤ 2 ^ (53 : ℕ) := by exact_mod_cast normal.bound
  constructor
  · calc (2 : ℚ) ^ (-1075 : ℤ) = 1 / 2 * 2 ^ leastExponent := by
          rw [one_div, mul_comm, ← zpow_sub_one₀ two_ne_zero]
          rfl
      _ ≤ 1 / 2 * 2 ^ exponent := by
          gcongr
          · exact one_le_two
          · exact normal.least
      _ ≤ (significand - reachBelow significand exponent) * 2 ^ exponent := by
          gcongr
          linarith [reachBelow_le significand exponent]
      _ ≤ x := hlow
  · calc x ≤ (significand + 1 / 2) * 2 ^ exponent := hhigh
      _ < 2 ^ (53 : ℕ) * 2 ^ exponent := mul_lt_mul_of_pos_right (by linarith) hpos
      _ ≤ 2 ^ (53 : ℕ) * 2 ^ greatestExponent := by
          gcongr
          · exact one_le_two
          · exact normal.greatest
      _ = 2 ^ (1024 : ℤ) := pow_mul_zpow 53 greatestExponent

theorem RoundsTo.isScale (h : RoundsTo significand exponent x) (normal : IsNormal significand exponent)
    (full : 2 ^ (52 : ℕ) * 2 ^ exponent ≤ x ∨ exponent = leastExponent) : IsScale x exponent where
  least := normal.least
  bound := by
    have hpos : (0 : ℚ) < 2 ^ exponent := by positivity
    have hbound : (significand : ℚ) + 1 ≤ 2 ^ (53 : ℕ) := by exact_mod_cast normal.bound
    rw [← div_lt_iff₀ hpos]
    linarith [h.between.2]
  full := full

theorem RoundsTo.below (h : RoundsTo significand exponent x) (normal : IsNormal significand exponent)
    (below : x / 2 ^ exponent < 2 ^ (52 : ℕ)) (ne : exponent ≠ leastExponent) :
    significand = fullSignificand ∧ IsScale x (exponent - 1) ∧
      IsNearest (x / 2 ^ (exponent - 1)) significandBound := by
  obtain ⟨hlow, -⟩ := h.between
  have hsignificand : significand = fullSignificand := by
    have hlt : (significand : ℚ) < 2 ^ (52 : ℕ) + 1 := by
      linarith [reachBelow_le significand exponent]
    have hle : significand < 2 ^ 52 + 1 := by exact_mod_cast hlt
    exact le_antisymm (Nat.lt_succ_iff.1 hle) (normal.full.resolve_right ne)
  have hleast : leastExponent < exponent := lt_of_le_of_ne normal.least (Ne.symm ne)
  have hvalue : (significand : ℚ) = 2 ^ (52 : ℕ) := by
    rw [hsignificand]
    norm_num [fullSignificand]
  have hbound : (significandBound : ℚ) = 2 ^ (53 : ℕ) := by norm_num [significandBound]
  have hdouble : x / 2 ^ (exponent - 1) = 2 * (x / 2 ^ exponent) := by
    rw [zpow_sub_one₀ two_ne_zero]
    field_simp
  have hpos : (0 : ℚ) < 2 ^ (exponent - 1) := by positivity
  rw [reachBelow, if_pos ⟨hsignificand, hleast⟩, hvalue] at hlow
  refine ⟨hsignificand, ⟨by omega, ?_, .inl ?_⟩, ?_⟩
  · rw [← div_lt_iff₀ hpos, hdouble]
    linarith
  · rw [← le_div_iff₀ hpos, hdouble]
    linarith
  · rw [hdouble, IsNearest, hbound]
    refine ⟨abs_le.2 ⟨?_, ?_⟩, fun _ => by decide⟩
    · linarith
    · linarith

theorem carry_of_roundsTo (negative : Bool) (h : RoundsTo significand exponent x)
    (normal : IsNormal significand exponent) {e : ℤ} {n : ℕ} (hscale : IsScale x e)
    (hn : IsNearest (x / 2 ^ e) n) : carry negative n e = .finite negative significand exponent := by
  by_cases full : 2 ^ (52 : ℕ) * 2 ^ exponent ≤ x ∨ exponent = leastExponent
  · obtain rfl := hscale.unique (h.isScale normal full)
    obtain rfl := hn.unique h.isNearest
    rw [carry, if_neg normal.bound.ne, pack, if_neg (not_lt.2 normal.greatest)]
  · obtain ⟨hbelow, ne⟩ := not_or.1 full
    have hpos : (0 : ℚ) < 2 ^ exponent := by positivity
    rw [← le_div_iff₀ hpos, not_le] at hbelow
    obtain ⟨hsignificand, hscale', hnearest⟩ := h.below normal hbelow ne
    obtain rfl := hscale.unique hscale'
    obtain rfl := hn.unique hnearest
    rw [carry, if_pos rfl, pack, sub_add_cancel, if_neg (not_lt.2 normal.greatest), hsignificand]

theorem ofRatio_of_roundsTo (negative : Bool) (normal : IsNormal significand exponent) {num den : ℕ}
    (hnum : 0 < num) (hden : 0 < den) (h : RoundsTo significand exponent (num / den)) :
    ofRatio negative num den = .finite negative significand exponent := by
  obtain ⟨e, n, hscale, hn, heq⟩ := ofRatio_spec negative hnum hden
  rw [heq, carry_of_roundsTo negative h normal hscale hn]

end

end Binary64

end SpanForest
