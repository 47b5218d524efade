import Mathlib.Algebra.Group.Nat.Defs
import Mathlib.Data.List.Induction
import SpanForest.Proofs.Text.Lowercase
import SpanForest.Text.Hex

/-!
Hexadecimal digits against the numbers they write. Digits of a fixed width are read back as the
number, and any digits, in lower case, are those of their number at their own length; zeros on the
left only make them longer.
-/

namespace SpanForest.Text

theorem hexValue?_hexAlphabet : ∀ d < 16, hexValue? (hexAlphabet.getD d '0') = some d := by decide

theorem readHex?_hexDigits (width n : Nat) (h : n < 16 ^ width) :
    readHex? (hexDigits width n) = some n := by
  induction width generalizing n with
  | zero =>
      obtain rfl : n = 0 := by simpa using h
      rfl
  | succ width ih =>
      have hrest : readHex? (hexDigits width (n / 16)) = some (n / 16) :=
        ih _ (Nat.div_lt_of_lt_mul (by rwa [Nat.pow_succ'] at h))
      rw [readHex?] at hrest
      rw [readHex?, hexDigits, List.foldlM_append, hrest]
      have hdigit := hexValue?_hexAlphabet (n % 16) (Nat.mod_lt n (by decide))
      simp only [Option.bind_eq_bind, Option.bind_some, List.foldlM_cons, List.foldlM_nil, hdigit,
        Option.map_some, Nat.div_add_mod]
      rfl

theorem hexDigits_inj {width m n : Nat} (hm : m < 16 ^ width) (hn : n < 16 ^ width)
    (h : hexDigits width m = hexDigits width n) : m = n := by
  have hread := readHex?_hexDigits width m hm
  rw [h, readHex?_hexDigits width n hn] at hread
  exact (Option.some.inj hread).symm

theorem hexDigits_zero (width : Nat) : hexDigits width 0 = List.replicate width '0' := by
  induction width with
  | zero => rfl
  | succ width ih =>
      rw [hexDigits, Nat.zero_div, ih, List.replicate_succ']
      rfl

theorem hexDigits_add (zeros : Nat) {width n : Nat} (h : n < 16 ^ width) :
    hexDigits (zeros + width) n = List.replicate zeros '0' ++ hexDigits width n := by
  induction width generalizing n with
  | zero =>
      obtain rfl : n = 0 := by simpa using h
      rw [Nat.add_zero, hexDigits_zero, hexDigits, List.append_nil]
  | succ width ih =>
      have hrest : n / 16 < 16 ^ width := Nat.div_lt_of_lt_mul (by rwa [Nat.pow_succ'] at h)
      rw [← Nat.add_assoc, hexDigits, hexDigits, ih hrest, List.append_assoc]

theorem hexDigit_spec {c : Char} {d : Nat} (h : hexValue? c = some d) :
    d < 16 ∧ lowerOf c = [hexAlphabet.getD d '0'] ∧ c ≠ '\u03a3' ∧ isBlank c = false := by
  have hascii : c.toNat < 0x80 := by
    unfold hexValue? at h
    split at h
    · next hc => exact Nat.lt_of_le_of_lt hc.2 (by decide)
    · split at h
      · next hc => exact Nat.lt_of_le_of_lt hc.2 (by decide)
      · split at h
        · next hc => exact Nat.lt_of_le_of_lt hc.2 (by decide)
        · cases h
  have hall : ∀ n < 0x80, ∀ d ∈ hexValue? (Char.ofNat n), d < 16 ∧
      lowerOf (Char.ofNat n) = [hexAlphabet.getD d '0'] ∧ Char.ofNat n ≠ '\u03a3' ∧
      isBlank (Char.ofNat n) = false := by decide +kernel
  have hc := hall c.toNat hascii d
  rw [Char.ofNat_toNat] at hc
  exact hc h

theorem readHex?_append_singleton {cs : List Char} {c : Char} {n : Nat} :
    readHex? (cs ++ [c]) = some n ↔
      ∃ m d, readHex? cs = some m ∧ hexValue? c = some d ∧ n = 16 * m + d := by
  simp only [readHex?, List.foldlM_append, List.foldlM_cons, List.foldlM_nil, Option.bind_eq_bind,
    Option.bind_eq_some_iff, Option.map_eq_some_iff, Option.pure_def, Option.some.injEq]
  constructor
  · rintro ⟨m, hm, _, ⟨d, hd, rfl⟩, rfl⟩
    exact ⟨m, d, hm, hd, rfl⟩
  · rintro ⟨m, d, hm, hd, rfl⟩
    exact ⟨m, hm, _, ⟨d, hd, rfl⟩, rfl⟩

theorem readHex?_lt {cs : List Char} {n : Nat} (h : readHex? cs = some n) : n < 16 ^ cs.length := by
  induction cs using List.reverseRecOn generalizing n with
  | nil => exact Option.some.inj h ▸ Nat.one_pos
  | append_singleton cs c ih =>
      obtain ⟨m, d, hm, hd, rfl⟩ := readHex?_append_singleton.1 h
      have hdigit := (hexDigit_spec hd).1
      have hrest := ih hm
      rw [List.length_append, List.length_singleton, Nat.pow_succ]
      omega

theorem hexValue?_of_mem {cs : List Char} {n : Nat} (h : readHex? cs = some n) {c : Char} (hc : c ∈ cs) :
    ∃ d, hexValue? c = some d := by
  induction cs using List.reverseRecOn generalizing n with
  | nil => cases hc
  | append_singleton cs last ih =>
      obtain ⟨m, d, hm, hd, -⟩ := readHex?_append_singleton.1 h
      rcases List.mem_append.1 hc with hc | hc
      · exact ih hm hc
      · exact ⟨d, List.mem_singleton.1 hc ▸ hd⟩

theorem lower_of_readHex? {cs : List Char} {n : Nat} (h : readHex? cs = some n) :
    lower (ofChars cs) = ofChars (hexDigits cs.length n) := by
  have hsigma : ∀ p ∈ ofChars cs, p ≠ .char '\u03a3' := by
    intro p hp
    obtain ⟨c, hc, rfl⟩ := List.mem_map.1 hp
    obtain ⟨d, hd⟩ := hexValue?_of_mem h hc
    exact mt CodePoint.char.inj (hexDigit_spec hd).2.2.1
  rw [lower, lowerFrom_of_ne_sigma [] hsigma]
  clear hsigma
  induction cs using List.reverseRecOn generalizing n with
  | nil => rfl
  | append_singleton cs c ih =>
      obtain ⟨m, d, hm, hd, rfl⟩ := readHex?_append_singleton.1 h
      obtain ⟨hdigit, hlower, -⟩ := hexDigit_spec hd
      have hdiv : (16 * m + d) / 16 = m := by omega
      have hmod : (16 * m + d) % 16 = d := by omega
      rw [ofChars_append, List.flatMap_append, ih hm, List.length_append, List.length_singleton,
        hexDigits, hdiv, hmod, ofChars_append, ← hlower]
      simp [ofChars, lowerPoint]

end SpanForest.Text
