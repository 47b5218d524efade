import SpanForest.Proofs.Json.Numbers
import SpanForest.Proofs.Number.Shortest
import SpanForest.Value.Text

/-!
Numbers with a fraction or an exponent read back as they were written. However the shortest digits
of a number are laid out, reading finds digits and an exponent of the same value, which are rounded
to the number.
-/

namespace SpanForest.Json

open Binary64 Numeral

theorem natOfDigits_append (cs ds : List Char) :
    natOfDigits (cs ++ ds) = Nat.ofDigitChars 10 ds (natOfDigits cs) := by
  rw [natOfDigits_eq, natOfDigits_eq, Nat.ofDigitChars_append]

theorem natOfDigits_append_zeros (cs : List Char) (count : Nat) :
    natOfDigits (cs ++ List.replicate count '0') = 10 ^ count * natOfDigits cs := by
  rw [natOfDigits_append, Nat.ofDigitChars_replicate_zero]

theorem natOfDigits_zeros_append (count : Nat) (cs : List Char) :
    natOfDigits (List.replicate count '0' ++ cs) = natOfDigits cs := by
  rw [natOfDigits_append, natOfDigits_eq, Nat.ofDigitChars_replicate_zero, Nat.mul_zero, natOfDigits_eq]

theorem natOfDigits_cons_zero (cs : List Char) : natOfDigits ('0' :: cs) = natOfDigits cs :=
  natOfDigits_zeros_append 1 cs

theorem readFraction_point {shown rest : List Char} (hdigits : ∀ c ∈ shown, isDigit c = true)
    (hshown : shown ≠ []) (hrest : ∀ c ∈ rest.head?, isDigit c = false) :
    readFraction ('.' :: shown ++ rest) = (shown, rest) := by
  obtain ⟨htake, hdrop⟩ := takeWhile_digits_append hdigits hrest
  rw [List.cons_append, readFraction]
  simp [htake, hdrop, hshown]

theorem readFraction_mark (rest : List Char) : readFraction ('e' :: rest) = ([], 'e' :: rest) := rfl

theorem readExponent_exponentText (power : Int) {rest : List Char}
    (hrest : ∀ c ∈ rest.head?, isDigit c = false) :
    readExponent ('e' :: exponentText power ++ rest) = (some power, rest) := by
  rw [exponentText]
  generalize hshown : (if (digits power.natAbs).length < 2 then '0' :: digits power.natAbs
    else digits power.natAbs) = shown
  have hdigits : ∀ c ∈ shown, isDigit c = true := by
    intro c hc
    subst hshown
    split at hc
    · rcases List.mem_cons.1 hc with rfl | hc
      · rfl
      · exact isDigit_of_mem_digits hc
    · exact isDigit_of_mem_digits hc
  have hvalue : natOfDigits shown = power.natAbs := by
    subst hshown
    split
    · rw [natOfDigits_cons_zero, natOfDigits_digits]
    · exact natOfDigits_digits _
  have hne : shown ≠ [] := by
    subst hshown
    split
    · exact List.cons_ne_nil _ _
    · exact digits_ne_nil _
  obtain ⟨htake, hdrop⟩ := takeWhile_digits_append hdigits hrest
  by_cases hpower : power < 0
  · have hsigned : signed true power.natAbs = power := by
      rw [signed, if_pos rfl]
      omega
    simp [readExponent, readSign, hpower, htake, hdrop, hne, hvalue, hsigned]
  · have hsigned : signed false power.natAbs = power := by
      rw [signed, if_neg Bool.false_ne_true]
      omega
    simp [readExponent, readSign, hpower, htake, hdrop, hne, hvalue, hsigned]

def ReadsAs (negative : Bool) (text : List Char) (value : ℚ) : Prop :=
  ∀ rest, EndsNumber rest → ∃ d : Decimal, d.value = value ∧
    readUnsigned negative (text ++ rest) =
      some (.float (ofDecimal negative d.digits d.exponent), rest)

theorem readsAs_point (negative : Bool) {whole fraction : List Char} (hwhole : IsWhole whole)
    (hfraction : ∀ c ∈ fraction, isDigit c = true) (hshown : fraction ≠ []) :
    ReadsAs negative (whole ++ '.' :: fraction)
      (Decimal.value ⟨natOfDigits (whole ++ fraction), -fraction.length⟩) := by
  intro rest hrest
  have hpoint : ∀ c ∈ ('.' :: fraction ++ rest).head?, isDigit c = false := by
    rintro c ⟨⟩
    rfl
  refine ⟨_, rfl, ?_⟩
  rw [List.append_assoc, readUnsigned, readWhole_of_isWhole hwhole hpoint]
  dsimp only
  rw [readFraction_point hfraction hshown hrest.head?_isDigit]
  simp [readExponent_of_ends hrest, hshown]

theorem readsAs_exponent (negative : Bool) {whole fraction : List Char} (hwhole : IsWhole whole)
    (hfraction : ∀ c ∈ fraction, isDigit c = true) (power : Int) :
    ReadsAs negative
      (whole ++ (if fraction.isEmpty then [] else '.' :: fraction) ++ 'e' :: exponentText power)
      (Decimal.value ⟨natOfDigits (whole ++ fraction), power - fraction.length⟩) := by
  intro rest hrest
  have hmark : ∀ c ∈ ('e' :: exponentText power ++ rest).head?, isDigit c = false := by
    rintro c ⟨⟩
    rfl
  have hexponent := readExponent_exponentText power hrest.head?_isDigit
  refine ⟨_, rfl, ?_⟩
  rw [List.append_assoc, List.append_assoc]
  cases fraction with
  | nil =>
      rw [readUnsigned, List.isEmpty_nil, if_pos rfl, List.nil_append,
        readWhole_of_isWhole hwhole hmark]
      dsimp only
      rw [List.cons_append, readFraction_mark, ← List.cons_append]
      dsimp only
      rw [hexponent]
      rfl
  | cons c cs =>
      have hpoint : ∀ d ∈ ('.' :: (c :: cs) ++ ('e' :: exponentText power ++ rest)).head?,
          isDigit d = false := by
        rintro d ⟨⟩
        rfl
      rw [readUnsigned, List.isEmpty_cons, if_neg Bool.false_ne_true,
        readWhole_of_isWhole hwhole hpoint]
      dsimp only
      rw [readFraction_point hfraction (List.cons_ne_nil c cs) hmark]
      dsimp only
      rw [hexponent]
      rfl

theorem isWhole_digits_append {n : Nat} (hn : 0 < n) {cs : List Char}
    (hcs : ∀ c ∈ cs, isDigit c = true) : IsWhole (digits n ++ cs) where
  digits := List.forall_mem_append.2 ⟨fun _ hc => isDigit_of_mem_digits hc, hcs⟩
  shown := List.append_ne_nil_of_left_ne_nil (digits_ne_nil n) cs
  zero h := by
    obtain ⟨c, rest, hdigits, -⟩ := exists_cons_digits n
    have hhead := head?_digits_ne hn
    rw [hdigits] at h hhead
    exact absurd h hhead

theorem isWhole_take_digits {n count : Nat} (hn : 0 < n) (hcount : 0 < count) :
    IsWhole ((digits n).take count) where
  digits _ hc := isDigit_of_mem_digits (List.mem_of_mem_take hc)
  shown := by
    simp [digits_ne_nil n, hcount.ne']
  zero h := by
    rw [List.head?_take, if_neg hcount.ne'] at h
    exact absurd h (head?_digits_ne hn)

theorem isDigit_of_mem_zero : ∀ c ∈ ['0'], isDigit c = true := List.forall_mem_singleton.2 rfl

theorem isDigit_of_mem_zeroText {n : Int} {c : Char} (h : c ∈ zeroText n) : isDigit c = true := by
  rw [List.eq_of_mem_replicate h]
  rfl

theorem value_shift {n : Nat} {e : Int} (count : Nat) :
    Decimal.value ⟨10 ^ count * n, e - count⟩ = Decimal.value ⟨n, e⟩ := by
  rw [Decimal.value, Decimal.value, zpow_sub₀ (by norm_num), zpow_natCast]
  push_cast
  field_simp

section

variable (negative : Bool) {d : Decimal} {point : Int}
  (hpoint : d.exponent + (digits d.digits).length = point)
include hpoint

theorem readsAs_behind (hleft : point ≤ 0) :
    ReadsAs negative ('0' :: '.' :: zeroText (-point) ++ digits d.digits) d.value := by
  have hzeros : ∀ c ∈ zeroText (-point) ++ digits d.digits, isDigit c = true :=
    List.forall_mem_append.2 ⟨fun c => isDigit_of_mem_zeroText, fun c => isDigit_of_mem_digits⟩
  have hread := readsAs_point negative (isWhole_digits 0) hzeros
    (List.append_ne_nil_of_right_ne_nil _ (digits_ne_nil _))
  have hvalue : natOfDigits (digits 0 ++ (zeroText (-point) ++ digits d.digits)) = d.digits :=
    (natOfDigits_cons_zero _).trans ((natOfDigits_zeros_append _ _).trans (natOfDigits_digits _))
  have hlength : (-((zeroText (-point) ++ digits d.digits).length : Int)) = d.exponent := by
    rw [List.length_append, zeroText, List.length_replicate]
    omega
  rw [hvalue, hlength] at hread
  exact hread

theorem readsAs_before (hd : 0 < d.digits) (hright : ((digits d.digits).length : Int) ≤ point) :
    ReadsAs negative
      (digits d.digits ++ zeroText (point - (digits d.digits).length) ++ ['.', '0']) d.value := by
  have hread := readsAs_point negative
    (isWhole_digits_append hd fun c (hc : c ∈ zeroText (point - (digits d.digits).length)) =>
      isDigit_of_mem_zeroText hc)
    isDigit_of_mem_zero (List.cons_ne_nil _ _)
  have hzeros : zeroText (point - (digits d.digits).length) ++ ['0'] =
      List.replicate (d.exponent.toNat + 1) '0' := by
    rw [zeroText, List.replicate_succ']
    congr 2
    omega
  have hexponent : (-(['0'].length : Int)) = d.exponent - (d.exponent.toNat + 1 : Nat) := by
    simp only [List.length_singleton]
    omega
  have hvalue : natOfDigits (digits d.digits ++ zeroText (point - (digits d.digits).length) ++
      ['0']) = 10 ^ (d.exponent.toNat + 1) * d.digits := by
    rw [List.append_assoc, hzeros, natOfDigits_append_zeros, natOfDigits_digits]
  rw [hvalue, hexponent, value_shift] at hread
  exact hread

theorem readsAs_between (hd : 0 < d.digits) (hleft : 0 < point)
    (hright : point < (digits d.digits).length) :
    ReadsAs negative
      ((digits d.digits).take point.toNat ++ '.' :: (digits d.digits).drop point.toNat) d.value := by
  have hcount : 0 < point.toNat := by omega
  have htail : (digits d.digits).drop point.toNat ≠ [] := by
    rw [Ne, List.drop_eq_nil_iff]
    omega
  have hread := readsAs_point negative (isWhole_take_digits hd hcount)
    (fun c hc => isDigit_of_mem_digits (List.mem_of_mem_drop hc)) htail
  have hexponent : (-(((digits d.digits).drop point.toNat).length : Int)) = d.exponent := by
    rw [List.length_drop]
    omega
  rw [List.take_append_drop, natOfDigits_digits, hexponent] at hread
  exact hread

end

theorem readsAs_pointText (negative : Bool) {d : Decimal} (hd : 0 < d.digits) :
    ReadsAs negative (pointText (digits d.digits) (d.exponent + (digits d.digits).length)) d.value := by
  rw [pointText]
  split
  · next hleft => exact readsAs_behind negative rfl hleft
  · next hleft =>
    split
    · next hright => exact readsAs_before negative rfl hd hright
    · next hright => exact readsAs_between negative rfl hd (not_le.1 hleft) (not_le.1 hright)

theorem readsAs_decimalText (negative : Bool) {d : Decimal} (hd : 0 < d.digits) :
    ReadsAs negative (decimalText d) d.value := by
  rw [decimalText]
  split
  · exact readsAs_pointText negative hd
  · have hlength : 0 < (digits d.digits).length := List.length_pos_of_ne_nil (digits_ne_nil _)
    have hread := readsAs_exponent negative (isWhole_take_digits hd one_pos)
      (fun c (hc : c ∈ (digits d.digits).drop 1) => isDigit_of_mem_digits (List.mem_of_mem_drop hc))
      (d.exponent + (digits d.digits).length - 1)
    have hexponent : d.exponent + ((digits d.digits).length : Int) - 1 -
        ((digits d.digits).drop 1).length = d.exponent := by
      rw [List.length_drop]
      omega
    rw [List.take_append_drop, natOfDigits_digits, hexponent] at hread
    exact hread

theorem readUnsigned_magnitudeText (negative : Bool) {significand : Nat} {exponent : Int}
    (h : IsNormal significand exponent) {rest : List Char} (hrest : EndsNumber rest) :
    readUnsigned negative (magnitudeText significand exponent ++ rest) =
      some (.float (.finite negative significand exponent), rest) := by
  rw [magnitudeText]
  split
  · next hzero =>
    have hexponent : exponent = leastExponent := by
      refine h.full.resolve_left ?_
      rw [hzero]
      decide
    obtain ⟨d, hvalue, hread⟩ := readsAs_point negative (isWhole_digits 0)
      isDigit_of_mem_zero (List.cons_ne_nil _ _) rest hrest
    have hdigits : d.digits = 0 := by
      have hnone : natOfDigits (digits 0 ++ ['0']) = 0 := rfl
      rw [hnone, Decimal.value, Decimal.value, Nat.cast_zero, zero_mul, mul_eq_zero] at hvalue
      exact_mod_cast hvalue.resolve_right (zpow_ne_zero _ (by norm_num))
    rw [hzero, hexponent]
    rw [hdigits] at hread
    exact hread
  · next hne =>
    have hpos := Nat.pos_of_ne_zero hne
    have hround := roundsTo_shortest hpos h
    obtain ⟨d, hvalue, hread⟩ :=
      readsAs_decimalText negative (hround.digits_pos hpos h) rest hrest
    rw [hread, ofDecimal_of_roundsTo negative hpos h (hvalue ▸ hround)]

theorem exists_cons_decimalText (d : Decimal) :
    ∃ c cs, decimalText d = c :: cs ∧ isDigit c = true := by
  obtain ⟨c, cs, hdigits, hc⟩ := exists_cons_digits d.digits
  rw [decimalText, pointText, hdigits]
  split
  · split
    · exact ⟨'0', _, rfl, rfl⟩
    · split
      · exact ⟨c, _, rfl, hc⟩
      · next hleft _ =>
        rw [← Nat.succ_pred_eq_of_pos (Int.lt_toNat.2 (not_le.1 hleft))]
        exact ⟨c, _, rfl, hc⟩
  · exact ⟨c, _, rfl, hc⟩

theorem exists_cons_magnitudeText (significand : Nat) (exponent : Int) :
    ∃ c cs, magnitudeText significand exponent = c :: cs ∧ isDigit c = true := by
  rw [magnitudeText]
  split
  · exact ⟨'0', _, rfl, rfl⟩
  · exact exists_cons_decimalText _

end SpanForest.Json
