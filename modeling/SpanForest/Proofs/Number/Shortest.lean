import Mathlib.Tactic.NormNum
import SpanForest.Number.Shortest
import SpanForest.Proofs.Number.Rounding

/-!
The shortest digits of a number are rounded to it. Every grid with a hit gives such digits, and the
seventeenth grid has one: it is that much finer than the number, and the interval is at least that
wide. Nothing here needs that no fewer digits would do.
-/

namespace SpanForest

open Binary64

/-- The number that digits with an exponent stand for. -/
def Decimal.value (d : Decimal) : ℚ := d.digits * 10 ^ d.exponent

namespace Shortest

variable {significand : ℕ} {exponent : ℤ}

theorem interval_den_pos (significand : ℕ) (exponent : ℤ) : 0 < (interval significand exponent).den :=
  Nat.pow_pos two_pos

theorem quarters_ratio (n : ℕ) (exponent : ℤ) :
    ((n * Nat.pow 2 (exponent - 2).toNat : ℕ) : ℚ) / (Nat.pow 2 (2 - exponent).toNat : ℕ) =
      n / 4 * 2 ^ exponent := by
  have hpower := pow_toNat_div_pow_toNat (two_ne_zero : (2 : ℚ) ≠ 0) (exponent - 2)
  rw [neg_sub, zpow_sub₀ two_ne_zero] at hpower
  push_cast [Nat.pow_eq]
  rw [mul_div_assoc, hpower]
  norm_num
  ring

theorem value_ratio (significand : ℕ) (exponent : ℤ) :
    ((interval significand exponent).value : ℚ) / (interval significand exponent).den =
      significand * 2 ^ exponent := by
  rw [interval, quarters_ratio]
  push_cast
  ring

theorem high_ratio (significand : ℕ) (exponent : ℤ) :
    ((interval significand exponent).high : ℚ) / (interval significand exponent).den =
      (significand + 1 / 2) * 2 ^ exponent := by
  rw [interval, quarters_ratio]
  push_cast
  ring

theorem low_ratio (pos : 0 < significand) (exponent : ℤ) :
    ((interval significand exponent).low : ℚ) / (interval significand exponent).den =
      (significand - reachBelow significand exponent) * 2 ^ exponent := by
  rw [interval, quarters_ratio, reachBelow]
  split
  · rw [Nat.cast_sub (by omega)]
    push_cast
    ring
  · rw [Nat.cast_sub (by omega)]
    push_cast
    ring

theorem has_interval (pos : 0 < significand) (exponent : ℤ) (num : ℕ) {den : ℕ} (hden : 0 < den) :
    (interval significand exponent).has num den = true ↔ RoundsTo significand exponent (num / den) := by
  have hden' : (0 : ℚ) < den := by exact_mod_cast hden
  have hpos : (0 : ℚ) < (interval significand exponent).den := by
    exact_mod_cast interval_den_pos significand exponent
  have hclosed : (interval significand exponent).closed = (significand % 2 == 0) := rfl
  rw [RoundsTo, ← low_ratio pos, ← high_ratio, div_le_div_iff₀ hpos hden', div_le_div_iff₀ hden' hpos,
    div_lt_div_iff₀ hpos hden', div_lt_div_iff₀ hden' hpos, Interval.has, hclosed]
  by_cases heven : significand % 2 = 0
  · rw [if_pos (beq_iff_eq.2 heven), if_pos heven, Bool.and_eq_true, decide_eq_true_eq,
      decide_eq_true_eq]
    norm_cast
  · rw [if_neg (mt beq_iff_eq.1 heven), if_neg heven, Bool.and_eq_true, decide_eq_true_eq,
      decide_eq_true_eq]
    norm_cast

theorem roundsTo_of_near {x : ℚ} (h : |(significand : ℚ) * 2 ^ exponent - x| <
    reachBelow significand exponent * 2 ^ exponent) : RoundsTo significand exponent x := by
  have hpos : (0 : ℚ) < 2 ^ exponent := by positivity
  have hreach := mul_le_mul_of_nonneg_right (reachBelow_le significand exponent) hpos.le
  obtain ⟨hlow, hhigh⟩ := abs_lt.1 h
  have hinside : (significand - reachBelow significand exponent) * 2 ^ exponent < x ∧
      x < (significand + 1 / 2) * 2 ^ exponent := by
    constructor
    · linarith
    · linarith
  rw [RoundsTo]
  split
  · exact ⟨hinside.1.le, hinside.2.le⟩
  · exact hinside

theorem grid_ratio (digits : ℕ) (place : ℤ) :
    ((digits * Nat.pow 10 place.toNat : ℕ) : ℚ) / (Nat.pow 10 (-place).toNat : ℕ) =
      digits * 10 ^ place := by
  push_cast [Nat.pow_eq]
  rw [mul_div_assoc, pow_toNat_div_pow_toNat (by norm_num)]

theorem ten_pow_pos (n : ℕ) : 0 < Nat.pow 10 n := Nat.pow_pos (by decide)

theorem onGrid_eq (i : Interval) (place : ℤ) :
    ∃ other, onGrid i place =
      let num := Nat.pow 10 place.toNat
      let den := Nat.pow 10 (-place).toNat
      let nearer := roundDiv (i.value * den) (i.den * num)
      if i.has (nearer * num) den then some ⟨nearer, place⟩
      else if i.has (other * num) den then some ⟨other, place⟩
      else none :=
  ⟨_, rfl⟩

theorem roundsTo_of_onGrid (pos : 0 < significand) {place : ℤ} {d : Decimal}
    (h : onGrid (interval significand exponent) place = some d) :
    RoundsTo significand exponent d.value := by
  have hhas (digits : ℕ) (hd : (interval significand exponent).has
      (digits * Nat.pow 10 place.toNat) (Nat.pow 10 (-place).toNat) = true) :
      RoundsTo significand exponent (Decimal.value ⟨digits, place⟩) := by
    rw [has_interval pos exponent _ (ten_pow_pos _), grid_ratio] at hd
    exact hd
  obtain ⟨other, hgrid⟩ := onGrid_eq (interval significand exponent) place
  rw [hgrid] at h
  dsimp only at h
  split at h
  · next hd => exact Option.some.inj h ▸ hhas _ hd
  · split at h
    · next hd => exact Option.some.inj h ▸ hhas _ hd
    · cases h

theorem near_grid (significand : ℕ) (exponent place : ℤ) :
    |(significand : ℚ) * 2 ^ exponent - roundDiv
      ((interval significand exponent).value * Nat.pow 10 (-place).toNat)
      ((interval significand exponent).den * Nat.pow 10 place.toNat) * 10 ^ place| ≤
        10 ^ place / 2 := by
  have hgrid : (0 : ℚ) < 10 ^ place := by positivity
  have hratio : (((interval significand exponent).value * Nat.pow 10 (-place).toNat : ℕ) : ℚ) /
      ((interval significand exponent).den * Nat.pow 10 place.toNat : ℕ) =
        significand * 2 ^ exponent / 10 ^ place := by
    rw [← value_ratio, ← pow_toNat_div_pow_toNat (by norm_num : (10 : ℚ) ≠ 0) place]
    push_cast [Nat.pow_eq]
    field_simp
  have hnearest := (isNearest_roundDiv
    ((interval significand exponent).value * Nat.pow 10 (-place).toNat)
    (Nat.mul_pos (interval_den_pos significand exponent) (ten_pow_pos place.toNat))).1
  rw [hratio] at hnearest
  generalize roundDiv _ _ = digits at hnearest ⊢
  have hscaled : (significand : ℚ) * 2 ^ exponent - digits * 10 ^ place =
      (significand * 2 ^ exponent / 10 ^ place - digits) * 10 ^ place := by
    rw [sub_mul, div_mul_cancel₀ _ hgrid.ne']
  rw [hscaled, abs_mul, abs_of_pos hgrid]
  linarith [mul_le_mul_of_nonneg_right hnearest hgrid.le]

theorem isSome_onGrid (pos : 0 < significand) {place : ℤ}
    (fine : 10 ^ place / 2 < reachBelow significand exponent * 2 ^ exponent) :
    (onGrid (interval significand exponent) place).isSome := by
  obtain ⟨other, heq⟩ := onGrid_eq (interval significand exponent) place
  rw [heq]
  dsimp only
  rw [if_pos]
  · rfl
  · rw [has_interval pos exponent _ (ten_pow_pos _), grid_ratio]
    exact roundsTo_of_near (lt_of_le_of_lt (near_grid significand exponent place) fine)

theorem search_spec {i : Interval} {place : ℤ} {count k : ℕ} (hk : k < count)
    (h : (onGrid i (place - k)).isSome) : ∃ p, onGrid i p = some (search i place count) := by
  induction count generalizing place k with
  | zero => exact absurd hk (Nat.not_lt_zero k)
  | succ count ih =>
      rw [search]
      cases hgrid : onGrid i place with
      | some d => exact ⟨place, hgrid⟩
      | none =>
          cases k with
          | zero =>
              rw [Nat.cast_zero, sub_zero, hgrid] at h
              cases h
          | succ k =>
              refine ih (Nat.lt_of_succ_lt_succ hk) (k := k) ?_
              have hplace : place - (k + 1 : ℕ) = place - 1 - k := by omega
              rwa [← hplace]

theorem value_dropZeros (count : ℕ) (d : Decimal) : (dropZeros count d).value = d.value := by
  induction count generalizing d with
  | zero => rfl
  | succ count ih =>
      rw [dropZeros]
      split
      · next h =>
        rw [ih, Decimal.value, Decimal.value, zpow_add_one₀ (by norm_num)]
        have hdigits : (d.digits : ℚ) = (d.digits / 10 : ℕ) * 10 := by
          exact_mod_cast (Nat.div_mul_cancel (Nat.dvd_of_mod_eq_zero h.2)).symm
        rw [hdigits]
        ring
      · rfl

theorem below_iff (significand : ℕ) (exponent place : ℤ) :
    (interval significand exponent).value * Nat.pow 10 (-place).toNat <
      (interval significand exponent).den * Nat.pow 10 place.toNat ↔
        (significand : ℚ) * 2 ^ exponent < 10 ^ place := by
  have hden : (0 : ℚ) < (interval significand exponent).den := by
    exact_mod_cast interval_den_pos significand exponent
  have hpow : (0 : ℚ) < 10 ^ (-place).toNat := by positivity
  rw [← value_ratio, ← pow_toNat_div_pow_toNat (by norm_num : (10 : ℚ) ≠ 0) place,
    div_lt_div_iff₀ hden hpow, mul_comm (10 ^ place.toNat : ℚ)]
  norm_cast

theorem ten_pow_guess_le {k : ℤ} (hlow : -1075 ≤ k) (hhigh : k ≤ 1025) :
    (10 : ℚ) ^ ((k * 30103).fdiv 100000 - 2) ≤ 2 ^ (k - 1) := by
  have hall : ∀ j < 2101, let k : ℤ := (j : ℕ) - 1075
      let place := (k * 30103).fdiv 100000 - 2
      10 ^ place.toNat * 2 ^ (1 - k).toNat ≤ 2 ^ (k - 1).toNat * 10 ^ (-place).toNat := by
    decide +kernel
  have hplace := hall (k + 1075).toNat (by omega)
  have hback : ((k + 1075).toNat : ℤ) - 1075 = k := by omega
  dsimp only at hplace
  rw [hback] at hplace
  generalize (k * 30103).fdiv 100000 - 2 = place at hplace ⊢
  have hten : (0 : ℚ) < 10 ^ (-place).toNat := by positivity
  have htwo : (0 : ℚ) < 2 ^ (-(k - 1)).toNat := by positivity
  rw [← pow_toNat_div_pow_toNat (by norm_num : (10 : ℚ) ≠ 0) place,
    ← pow_toNat_div_pow_toNat (two_ne_zero : (2 : ℚ) ≠ 0), div_le_div_iff₀ hten htwo, neg_sub]
  exact_mod_cast hplace

theorem seventeenth_fine (normal : IsNormal significand exponent) {place : ℤ}
    (h : (10 : ℚ) ^ place ≤ significand * 2 ^ exponent) :
    (10 : ℚ) ^ (place - 16) / 2 < reachBelow significand exponent * 2 ^ exponent := by
  have hpos : (0 : ℚ) < 2 ^ exponent := by positivity
  have hsmall : (significand : ℚ) / (2 * 10 ^ 16) < reachBelow significand exponent := by
    rw [reachBelow]
    split
    · next hfull =>
      rw [hfull.1]
      norm_num [fullSignificand]
    · have hbound : (significand : ℚ) < 2 ^ 53 := by exact_mod_cast normal.bound
      rw [div_lt_iff₀ (by norm_num)]
      linarith
  calc (10 : ℚ) ^ (place - 16) / 2 = 10 ^ place / (2 * 10 ^ 16) := by
        rw [zpow_sub₀ (by norm_num)]
        norm_num
        ring
    _ ≤ significand * 2 ^ exponent / (2 * 10 ^ 16) := by gcongr
    _ = significand / (2 * 10 ^ 16) * 2 ^ exponent := by ring
    _ < reachBelow significand exponent * 2 ^ exponent := mul_lt_mul_of_pos_right hsmall hpos

theorem firstPlace_le (pos : 0 < significand) (normal : IsNormal significand exponent) :
    (10 : ℚ) ^ firstPlace (interval significand exponent) ≤ significand * 2 ^ exponent := by
  have hvalue : 0 < (interval significand exponent).value :=
    Nat.mul_pos (Nat.mul_pos (by decide) pos) (Nat.pow_pos two_pos)
  obtain ⟨hlow, hhigh⟩ := log2_ratio hvalue (interval_den_pos significand exponent)
  rw [value_ratio] at hlow hhigh
  rw [firstPlace]
  generalize ((interval significand exponent).value.log2 : ℤ) -
    (interval significand exponent).den.log2 = k at hlow hhigh ⊢
  have hk : -1075 ≤ k ∧ k ≤ 1025 := by
    obtain ⟨hsmallest, hlargest⟩ := normal.magnitude_bounds pos
    have hlow' := hlow.trans hlargest
    have hhigh' := hsmallest.trans_lt hhigh
    rw [zpow_lt_zpow_iff_right₀ one_lt_two] at hlow' hhigh'
    unfold leastExponent at hhigh'
    unfold greatestExponent at hlow'
    omega
  have hguess := (ten_pow_guess_le hk.1 hk.2).trans hlow.le
  generalize (k * 30103).fdiv 100000 = estimate at hguess ⊢
  simp only [decide_eq_true_eq, below_iff]
  split
  · exact hguess
  · split
    · next h _ => exact not_lt.1 h
    · split
      · next h _ => exact not_lt.1 h
      · split
        · next h _ => exact not_lt.1 h
        · next h => exact not_lt.1 h

end Shortest

theorem roundsTo_shortest {significand : ℕ} {exponent : ℤ} (pos : 0 < significand)
    (normal : IsNormal significand exponent) :
    RoundsTo significand exponent (shortest significand exponent).value := by
  have hlast := Shortest.seventeenth_fine normal (Shortest.firstPlace_le pos normal)
  have hsome := Shortest.isSome_onGrid pos hlast
  obtain ⟨place, hgrid⟩ := Shortest.search_spec (k := 16) (by decide : 16 < 17) hsome
  rw [shortest, Shortest.value_dropZeros]
  exact Shortest.roundsTo_of_onGrid pos hgrid

namespace Binary64

theorem lt_pow_digitCount (n : ℕ) : n < 10 ^ digitCount n :=
  (Nat.length_toDigits_le_iff (by decide) Nat.length_toDigits_pos).1 le_rfl

theorem pow_digitCount_le {n : ℕ} (hn : 0 < n) : 10 ^ (digitCount n - 1) ≤ n := by
  by_contra hlt
  have hcount : 0 < digitCount n - 1 := by
    by_contra hzero
    rw [Nat.eq_zero_of_not_pos hzero] at hlt
    omega
  have hle : digitCount n ≤ digitCount n - 1 :=
    (Nat.length_toDigits_le_iff (by decide) hcount).2 (not_le.1 hlt)
  omega

theorem value_bounds {d : Decimal} (hd : 0 < d.digits) :
    (10 : ℚ) ^ (d.exponent + digitCount d.digits - 1) ≤ d.value ∧
      d.value < 10 ^ (d.exponent + digitCount d.digits) := by
  have hten : (10 : ℚ) ≠ 0 := by norm_num
  have hpos : (0 : ℚ) < 10 ^ d.exponent := by positivity
  have hcount : 0 < digitCount d.digits := Nat.length_toDigits_pos
  constructor
  · have hsplit : d.exponent + digitCount d.digits - 1 =
      (digitCount d.digits - 1 : ℕ) + d.exponent := by omega
    rw [hsplit, zpow_add₀ hten, zpow_natCast, Decimal.value]
    exact mul_le_mul_of_nonneg_right (by exact_mod_cast pow_digitCount_le hd) hpos.le
  · rw [add_comm, zpow_add₀ hten, zpow_natCast, Decimal.value]
    exact mul_lt_mul_of_pos_right (by exact_mod_cast lt_pow_digitCount d.digits) hpos

theorem RoundsTo.digits_pos {significand : ℕ} {exponent : ℤ} {d : Decimal}
    (h : RoundsTo significand exponent d.value) (pos : 0 < significand)
    (normal : IsNormal significand exponent) : 0 < d.digits := by
  by_contra hzero
  have hlow := (h.bounds pos normal).1
  rw [Decimal.value, Nat.eq_zero_of_not_pos hzero, Nat.cast_zero, zero_mul] at hlow
  exact absurd hlow (not_le.2 (by positivity))

theorem RoundsTo.formed {significand : ℕ} {exponent : ℤ} {d : Decimal}
    (h : RoundsTo significand exponent d.value) (pos : 0 < significand)
    (normal : IsNormal significand exponent) :
    ¬310 < d.exponent + digitCount d.digits ∧ ¬d.exponent + digitCount d.digits < -330 := by
  obtain ⟨hlow, hhigh⟩ := h.bounds pos normal
  obtain ⟨hleast, hgreatest⟩ := value_bounds (h.digits_pos pos normal)
  constructor
  · intro hlarge
    have hvalue : (10 : ℚ) ^ (310 : ℤ) ≤ d.value :=
      (zpow_le_zpow_right₀ (by norm_num) (by omega)).trans hleast
    have hrange : (2 : ℚ) ^ (1024 : ℤ) ≤ 10 ^ (310 : ℤ) := by
      exact_mod_cast (by decide +kernel : 2 ^ 1024 ≤ 10 ^ 310)
    exact absurd (hvalue.trans_lt hhigh) (not_lt.2 hrange)
  · intro hsmall
    have hvalue : d.value ≤ (10 : ℚ) ^ (-330 : ℤ) :=
      hgreatest.le.trans (zpow_le_zpow_right₀ (by norm_num) hsmall.le)
    have hrange : (10 : ℚ) ^ (-330 : ℤ) < 2 ^ (-1075 : ℤ) := by
      rw [zpow_neg, zpow_neg, inv_lt_inv₀ (by positivity) (by positivity)]
      exact_mod_cast (by decide +kernel : 2 ^ 1075 < 10 ^ 330)
    exact absurd (hlow.trans hvalue) (not_le.2 hrange)

theorem ofDecimal_of_roundsTo (negative : Bool) {significand : ℕ} {exponent : ℤ}
    (pos : 0 < significand) (normal : IsNormal significand exponent) {d : Decimal}
    (h : RoundsTo significand exponent d.value) :
    ofDecimal negative d.digits d.exponent = .finite negative significand exponent := by
  have hdigits := h.digits_pos pos normal
  obtain ⟨hbelow, habove⟩ := h.formed pos normal
  rw [ofDecimal]
  rw [if_neg hdigits.ne', if_neg hbelow, if_neg habove]
  refine ofRatio_of_roundsTo negative normal (Nat.mul_pos hdigits (Shortest.ten_pow_pos _))
    (Shortest.ten_pow_pos _) ?_
  rw [Shortest.grid_ratio]
  exact h

theorem canonical_ofDecimal (negative : Bool) (digits : ℕ) (exponent : ℤ) :
    (ofDecimal negative digits exponent).Canonical := by
  have hzero : (zero negative).Canonical := ⟨by decide, le_rfl, by decide, .inr rfl⟩
  rw [ofDecimal]
  split
  · exact hzero
  · split
    · trivial
    · split
      · exact hzero
      · exact canonical_ofRatio negative _ (Shortest.ten_pow_pos _)

end Binary64

end SpanForest
