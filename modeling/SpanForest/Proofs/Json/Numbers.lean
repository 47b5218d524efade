import SpanForest.Json.Numbers
import SpanForest.Number.Numeral

/-!
Integers read back as they were written. A number is read up to the first character that cannot go
on with it.
-/

namespace SpanForest.Json

open SpanForest.Numeral

theorem natOfDigits_eq (cs : List Char) : natOfDigits cs = Nat.ofDigitChars 10 cs 0 :=
  Nat.ofDigitChars_eq_foldl.symm

theorem natOfDigits_digits (n : Nat) : natOfDigits (digits n) = n := by
  rw [natOfDigits_eq, digits, Nat.ofDigitChars_ten_toDigits]

theorem isDigit_eq (c : Char) : isDigit c = c.isDigit := rfl

theorem digits_ne_nil (n : Nat) : digits n ≠ [] := Nat.toDigits_ne_nil

theorem isDigit_of_mem_digits {n : Nat} {c : Char} (h : c ∈ digits n) : isDigit c = true :=
  (isDigit_eq c).trans (Nat.isDigit_of_mem_toDigits (by decide) (by decide) h)

theorem digits_of_ge {n : Nat} (h : 10 ≤ n) : digits n = digits (n / 10) ++ [(n % 10).digitChar] :=
  Nat.toDigits_of_base_le (by decide) h

theorem head?_digits_ne {n : Nat} (h : 0 < n) : (digits n).head? ≠ some '0' := by
  induction n using Nat.strongRecOn with
  | ind n ih =>
      by_cases hn : n < 10
      · rw [digits, Nat.toDigits_of_lt_base hn]
        have hchar : ∀ d < 10, 0 < d → [Nat.digitChar d].head? ≠ some '0' := by decide
        exact hchar n hn h
      · have hrest := ih (n / 10) (by omega) (by omega)
        obtain ⟨c, cs, hdigits⟩ := List.exists_cons_of_ne_nil (digits_ne_nil (n / 10))
        rw [hdigits] at hrest
        rw [digits_of_ge (by omega), hdigits]
        exact hrest

theorem exists_cons_digits (n : Nat) : ∃ c cs, digits n = c :: cs ∧ isDigit c = true := by
  obtain ⟨c, cs, hdigits⟩ := List.exists_cons_of_ne_nil (digits_ne_nil n)
  exact ⟨c, cs, hdigits, isDigit_of_mem_digits (hdigits ▸ List.mem_cons_self)⟩

def EndsNumber (rest : List Char) : Prop :=
  ∀ c ∈ rest.head?, isDigit c = false ∧ c ≠ '.' ∧ c ≠ 'e' ∧ c ≠ 'E'

theorem takeWhile_digits_append {shown rest : List Char} (hshown : ∀ c ∈ shown, isDigit c = true)
    (hrest : ∀ c ∈ rest.head?, isDigit c = false) :
    (shown ++ rest).takeWhile isDigit = shown ∧ (shown ++ rest).dropWhile isDigit = rest := by
  induction shown with
  | nil =>
      cases rest with
      | nil => exact ⟨rfl, rfl⟩
      | cons c rest =>
          have hc := hrest c rfl
          simp [hc]
  | cons c shown ih =>
      have hc := hshown c List.mem_cons_self
      obtain ⟨htake, hdrop⟩ := ih fun d hd => hshown d (List.mem_cons_of_mem c hd)
      simp [hc, htake, hdrop]

structure IsWhole (cs : List Char) : Prop where
  digits : ∀ c ∈ cs, isDigit c = true
  shown : cs ≠ []
  zero : cs.head? = some '0' → cs = ['0']

theorem isWhole_digits (n : Nat) : IsWhole (digits n) where
  digits _ hc := isDigit_of_mem_digits hc
  shown := digits_ne_nil n
  zero h := by
    rcases Nat.eq_zero_or_pos n with rfl | hn
    · rfl
    · exact absurd h (head?_digits_ne hn)

theorem readWhole_of_isWhole {whole rest : List Char} (h : IsWhole whole)
    (hrest : ∀ c ∈ rest.head?, isDigit c = false) :
    readWhole (whole ++ rest) = some (whole, rest) := by
  obtain ⟨htake, hdrop⟩ := takeWhile_digits_append h.digits hrest
  obtain ⟨c, cs, rfl⟩ := List.exists_cons_of_ne_nil h.shown
  by_cases hzero : c = '0'
  · obtain rfl := hzero
    rw [h.zero rfl]
    rfl
  · rw [List.cons_append] at htake hdrop ⊢
    rw [readWhole, if_neg hzero, if_pos (h.digits c List.mem_cons_self), htake, hdrop]

theorem readFraction_of_ends {rest : List Char} (h : EndsNumber rest) :
    readFraction rest = ([], rest) := by
  unfold readFraction
  split
  · exact absurd rfl (h '.' rfl).2.1
  · rfl

theorem readExponent_of_ends {rest : List Char} (h : EndsNumber rest) :
    readExponent rest = (none, rest) := by
  cases rest with
  | nil => rfl
  | cons c rest =>
      obtain ⟨-, -, he, hE⟩ := h c rfl
      simp [readExponent, he, hE]

theorem EndsNumber.head?_isDigit {rest : List Char} (h : EndsNumber rest) :
    ∀ c ∈ rest.head?, isDigit c = false := fun c hc => (h c hc).1

theorem readNumber_minus (cs : List Char) : readNumber ('-' :: cs) = readUnsigned true cs := rfl

theorem readNumber_of_isDigit {c : Char} (hc : isDigit c = true) (cs : List Char) :
    readNumber (c :: cs) = readUnsigned false (c :: cs) := by
  have hsign : c ≠ '-' := by
    rintro rfl
    exact absurd hc (by decide)
  simp [readNumber, hsign]

theorem readUnsigned_digits (negative : Bool) (n : Nat) {rest : List Char} (h : EndsNumber rest) :
    readUnsigned negative (digits n ++ rest) = some (.int (Binary64.signed negative n), rest) := by
  rw [readUnsigned, readWhole_of_isWhole (isWhole_digits n) h.head?_isDigit]
  simp [readFraction_of_ends h, readExponent_of_ends h, natOfDigits_digits]

end SpanForest.Json
