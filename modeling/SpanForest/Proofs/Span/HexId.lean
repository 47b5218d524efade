import SpanForest.Proofs.Span.NormalId
import SpanForest.Proofs.Text.Hex

/-!
Ids that are hexadecimal numbers. The one form of such an id is its number in 16 or 32 digits, so
ids have one form exactly if they write one number in the same of the two widths. An id of more than
32 digits is not padded and stands outside this.
-/

namespace SpanForest

open Text

/-- An id of 1 to 32 hexadecimal digits in either case, with any blanks around them. -/
structure HexId where
  before : List Char
  digits : List Char
  after : List Char
  number : Nat
  blank_before : ∀ c ∈ before, isBlank c = true
  blank_after : ∀ c ∈ after, isBlank c = true
  reads : readHex? digits = some number
  length_pos : 0 < digits.length
  length_le : digits.length ≤ 32

namespace HexId

def text (a : HexId) : Text := ofChars (a.before ++ a.digits ++ a.after)

def width (a : HexId) : Nat := if a.digits.length ≤ 16 then 16 else 32

variable (a b : HexId)

theorem width_digits : Id.width a.digits.length = a.width := by
  have hcases := Id.width_cases a.digits.length
  have hle := a.length_le
  unfold width
  split <;> omega

theorem number_lt : a.number < 16 ^ a.digits.length := readHex?_lt a.reads

theorem normal_text : Id.normal a.text = ofChars (hexDigits a.width a.number) := by
  have hne : ofChars a.digits ≠ [] :=
    List.map_eq_nil_iff.not.2 (List.ne_nil_of_length_pos a.length_pos)
  have htext : a.text ≠ [] := by
    simp only [text, ofChars_append, ne_eq, List.append_eq_nil_iff, hne, and_false, false_and,
      not_false_eq_true]
  have hdigits : EndsShown (·.meets isBlank) (ofChars a.digits) := by
    refine endsShown_of_forall fun p hp => ?_
    obtain ⟨c, hc, rfl⟩ := List.mem_map.1 hp
    obtain ⟨d, hd⟩ := hexValue?_of_mem a.reads hc
    exact (hexDigit_spec hd).2.2.2
  have htrim : trim a.text = ofChars a.digits := by
    rw [text, ofChars_append, ofChars_append]
    exact hdigits.trimBy_between hne (List.forall_mem_map.2 a.blank_before)
      (List.forall_mem_map.2 a.blank_after)
  have hlength : (ofChars (hexDigits a.digits.length a.number)).length = a.digits.length := by
    rw [ofChars, List.length_map, length_hexDigits]
  have hle : a.digits.length ≤ a.width := a.width_digits ▸ Id.le_width a.digits.length
  have hsplit : a.width - a.digits.length + a.digits.length = a.width := Nat.sub_add_cancel hle
  have hzeros : ofChars (List.replicate (a.width - a.digits.length) '0') =
      List.replicate (a.width - a.digits.length) (.char '0') := List.map_replicate
  rw [Id.normal, if_neg htext, htrim, lower_of_readHex? a.reads, Id.pad, hlength, a.width_digits,
    ← hsplit, hexDigits_add _ a.number_lt, hsplit, ofChars_append, hzeros]

theorem number_lt_width : a.number < 16 ^ a.width := by
  have hle : a.digits.length ≤ a.width := a.width_digits ▸ Id.le_width a.digits.length
  exact Nat.lt_of_lt_of_le a.number_lt (Nat.pow_le_pow_right (by decide) hle)

theorem normal_text_eq_iff :
    Id.normal a.text = Id.normal b.text ↔ a.width = b.width ∧ a.number = b.number := by
  rw [normal_text, normal_text, ofChars_inj]
  constructor
  · intro h
    have hwidth : a.width = b.width := by
      rw [← length_hexDigits a.width a.number, h, length_hexDigits]
    rw [← hwidth] at h
    exact ⟨hwidth, hexDigits_inj a.number_lt_width (hwidth ▸ b.number_lt_width) h⟩
  · rintro ⟨hwidth, hnumber⟩
    rw [hwidth, hnumber]

theorem width_eq_iff : a.width = b.width ↔
    a.digits.length ≤ 16 ∧ b.digits.length ≤ 16 ∨ 16 < a.digits.length ∧ 16 < b.digits.length := by
  unfold width
  split <;> split <;> omega

end HexId

/-- The one form of an id is a canonical form: it is its own, and two hexadecimal ids have it in common
exactly if they write one number and both fit into 16 digits as written, or neither does. -/
theorem Id.normal_canonical : (∀ s, normal (normal s) = normal s) ∧ ∀ a b : HexId,
    normal a.text = normal b.text ↔ a.number = b.number ∧
      (a.digits.length ≤ 16 ∧ b.digits.length ≤ 16 ∨ 16 < a.digits.length ∧ 16 < b.digits.length) := by
  refine ⟨normal_normal, fun a b => ?_⟩
  rw [a.normal_text_eq_iff b, a.width_eq_iff b]
  exact And.comm

def looseId : HexId where
  before := [' ']
  digits := ['7', 'B']
  after := []
  number := 0x7b
  blank_before := List.forall_mem_singleton.2 (by decide)
  blank_after := List.forall_mem_nil _
  reads := rfl
  length_pos := by decide
  length_le := by decide

def paddedId : HexId where
  before := []
  digits := ['0', '0', '7', 'b']
  after := []
  number := 0x7b
  blank_before := List.forall_mem_nil _
  blank_after := List.forall_mem_nil _
  reads := rfl
  length_pos := by decide
  length_le := by decide

theorem normal_canonical_looseId : looseId.text = " 7B" ∧ paddedId.text = "007b" ∧
    Id.normal looseId.text = Id.normal paddedId.text := by
  refine ⟨rfl, rfl, (Id.normal_canonical.2 looseId paddedId).2 ⟨rfl, .inl ⟨?_, ?_⟩⟩⟩
  · decide
  · decide

end SpanForest
