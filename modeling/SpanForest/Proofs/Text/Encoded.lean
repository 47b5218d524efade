import SpanForest.Proofs.Files.Ascii
import SpanForest.Proofs.Text.Lines
import SpanForest.Span.Stream

/-!
Text and its UTF-8 bytes. The bytes of a character are read back as the character, whatever follows
them, and none of them is a line feed unless the character is. So the lines of the bytes are the
lines of the text, and spans read from the one or the other are the same.
-/

namespace SpanForest

namespace Utf8

deriving instance DecidableEq for Lead

theorem toNat_byteOf {mark bits : Nat} (h : mark + bits < 256) :
    (byteOf mark bits).toNat = mark + bits := by
  rw [byteOf, UInt8.toNat_ofNat']
  omega

theorem char_range (c : Char) : c.toNat < 0xd800 ∨ 0xdfff < c.toNat ∧ c.toNat < 0x110000 :=
  c.valid

theorem continueChar_byteOf {bits : Nat} (h : bits < 64) {low high : UInt8}
    (hlow : low.toNat ≤ 0x80 + bits) (hhigh : 0x80 + bits ≤ high.toNat) (code read count : Nat)
    (rest : List UInt8) :
    continueChar code read low high (count + 1) (byteOf 0x80 bits :: rest) =
      continueChar (64 * code + bits) (read + 1) 0x80 0xbf count rest := by
  have hbyte : (byteOf 0x80 bits).toNat = 0x80 + bits := toNat_byteOf (by omega)
  have hrange : low ≤ byteOf 0x80 bits ∧ byteOf 0x80 bits ≤ high := by
    rw [UInt8.le_iff_toNat_le, UInt8.le_iff_toNat_le, hbyte]
    exact ⟨hlow, hhigh⟩
  have hbits : (0x80 + bits) % 64 = bits := by omega
  rw [continueChar, if_pos hrange, hbyte, hbits]

theorem continueChar_later {bits : Nat} (h : bits < 64) (code read count : Nat) (rest : List UInt8) :
    continueChar code read 0x80 0xbf (count + 1) (byteOf 0x80 bits :: rest) =
      continueChar (64 * code + bits) (read + 1) 0x80 0xbf count rest := by
  apply continueChar_byteOf h
  · exact Nat.le_add_right 0x80 bits
  · show 0x80 + bits ≤ 0xbf
    omega

theorem lead?_two : ∀ k < 32, 2 ≤ k → lead? (byteOf 0xc0 k) = some ⟨1, 0x80, 0xbf⟩ := by
  decide

theorem lead?_three : ∀ k < 16, lead? (byteOf 0xe0 k) =
    some ⟨2, if k = 0 then 0xa0 else 0x80, if k = 13 then 0x9f else 0xbf⟩ := by
  decide

theorem lead?_four : ∀ k < 5, lead? (byteOf 0xf0 k) =
    some ⟨3, if k = 0 then 0x90 else 0x80, if k = 4 then 0x8f else 0xbf⟩ := by
  decide

theorem next_of_lead {b : UInt8} {l : Lead} (hb : 0x80 ≤ b.toNat) (h : lead? b = some l)
    (rest : List UInt8) :
    next b rest = continueChar (leadBits b l.count) 1 l.low l.high l.count rest := by
  have hb : ¬ b < 0x80 := by
    rw [UInt8.lt_iff_toNat_lt]
    exact Nat.not_lt.2 hb
  rw [next, if_neg hb, h]

section

variable {c : Char} (rest : List UInt8)

theorem next_two (hlow : 0x80 ≤ c.toNat) (hhigh : c.toNat < 0x800) :
    next (byteOf 0xc0 (c.toNat / 64)) (byteOf 0x80 (c.toNat % 64) :: rest) = .char c 2 := by
  have hbyte : (byteOf 0xc0 (c.toNat / 64)).toNat = 0xc0 + c.toNat / 64 := toNat_byteOf (by omega)
  have hbits : leadBits (byteOf 0xc0 (c.toNat / 64)) 1 = c.toNat / 64 := by
    rw [leadBits, if_pos rfl, hbyte]
    omega
  have hcode : 64 * (c.toNat / 64) + c.toNat % 64 = c.toNat := by omega
  rw [next_of_lead (by omega) (lead?_two _ (by omega) (by omega)), hbits,
    continueChar_later (by omega), hcode, continueChar, Char.ofNat_toNat]

theorem next_three (hlow : 0x800 ≤ c.toNat) (hhigh : c.toNat < 0x10000) :
    next (byteOf 0xe0 (c.toNat / 4096))
      (byteOf 0x80 (c.toNat / 64 % 64) :: byteOf 0x80 (c.toNat % 64) :: rest) = .char c 3 := by
  have hbyte : (byteOf 0xe0 (c.toNat / 4096)).toNat = 0xe0 + c.toNat / 4096 :=
    toNat_byteOf (by omega)
  have hbits : leadBits (byteOf 0xe0 (c.toNat / 4096)) 2 = c.toNat / 4096 := by
    rw [leadBits, if_neg (by decide), if_pos rfl, hbyte]
    omega
  have hcode : 64 * (64 * (c.toNat / 4096) + c.toNat / 64 % 64) + c.toNat % 64 = c.toNat := by omega
  have hrange := char_range c
  rw [next_of_lead (by omega) (lead?_three _ (by omega)), hbits,
    continueChar_byteOf (by omega) ?_ ?_, continueChar_later (by omega), hcode, continueChar,
    Char.ofNat_toNat]
  -- a code of three bytes that two would hold, or that is a surrogate's, is ruled out
  · dsimp only
    split
    · show 0xa0 ≤ _
      omega
    · show 0x80 ≤ _
      omega
  · dsimp only
    split
    · show _ ≤ 0x9f
      omega
    · show _ ≤ 0xbf
      omega

theorem next_four (hlow : 0x10000 ≤ c.toNat) :
    next (byteOf 0xf0 (c.toNat / 262144))
      (byteOf 0x80 (c.toNat / 4096 % 64) :: byteOf 0x80 (c.toNat / 64 % 64) ::
        byteOf 0x80 (c.toNat % 64) :: rest) = .char c 4 := by
  have hrange := char_range c
  have hbyte : (byteOf 0xf0 (c.toNat / 262144)).toNat = 0xf0 + c.toNat / 262144 :=
    toNat_byteOf (by omega)
  have hbits : leadBits (byteOf 0xf0 (c.toNat / 262144)) 3 = c.toNat / 262144 := by
    rw [leadBits, if_neg (by decide), if_neg (by decide), hbyte]
    omega
  have hcode : 64 * (64 * (64 * (c.toNat / 262144) + c.toNat / 4096 % 64) + c.toNat / 64 % 64) +
      c.toNat % 64 = c.toNat := by omega
  rw [next_of_lead (by omega) (lead?_four _ (by omega)), hbits,
    continueChar_byteOf (by omega) ?_ ?_, continueChar_later (by omega),
    continueChar_later (by omega), hcode, continueChar, Char.ofNat_toNat]
  -- a code of four bytes that three would hold, or that is beyond the last, is ruled out
  · dsimp only
    split
    · show 0x90 ≤ _
      omega
    · show 0x80 ≤ _
      omega
  · dsimp only
    split
    · show _ ≤ 0x8f
      omega
    · show _ ≤ 0xbf
      omega

end

theorem next_encodeChar (c : Char) (rest : List UInt8) :
    ∃ b bs, encodeChar c = b :: bs ∧ next b (bs ++ rest) = .char c (bs.length + 1) := by
  simp only [encodeChar]
  split
  · next h => exact ⟨_, _, rfl, by rw [byteOf, Nat.zero_add]; exact next_ascii h rest⟩
  · split
    · next hlow hhigh => exact ⟨_, _, rfl, next_two rest (by omega) hhigh⟩
    · split
      · next hlow hhigh => exact ⟨_, _, rfl, next_three rest (by omega) hhigh⟩
      · next hlow => exact ⟨_, _, rfl, next_four rest (by omega)⟩

theorem decodeFrom_append (bs rest : List UInt8) :
    decodeFrom bs.length (bs ++ rest) = decodeFrom 0 rest := by
  induction bs with
  | nil => rfl
  | cons b bs ih => exact ih

theorem decode_encode (cs : List Char) : decode (encode cs) = cs := by
  induction cs with
  | nil => rfl
  | cons c cs ih =>
      obtain ⟨b, bs, hbytes, hnext⟩ := next_encodeChar c (encode cs)
      have hencode : encode (c :: cs) = b :: (bs ++ encode cs) := by
        rw [encode, List.flatMap_cons, hbytes]
        rfl
      rw [hencode, decode, decodeFrom, hnext]
      dsimp only
      rw [Nat.add_sub_cancel, decodeFrom_append]
      exact congrArg _ ih

theorem notMem_encodeChar {c : Char} (h : c ≠ '\n') : 0x0a ∉ encodeChar c := by
  have hcode : c.toNat ≠ 10 := fun hcode => h (by rw [← Char.ofNat_toNat c, hcode])
  have hrange := char_range c
  have hbyte {mark bits : Nat} (hlt : mark + bits < 256) (hne : mark + bits ≠ 10) :
      0x0a ≠ byteOf mark bits := by
    intro heq
    have hnat := congrArg UInt8.toNat heq
    rw [toNat_byteOf hlt] at hnat
    exact hne hnat.symm
  simp only [encodeChar]
  split
  · simp only [List.mem_singleton]
    exact hbyte (by omega) (by omega)
  · split
    · simp only [List.mem_cons, List.not_mem_nil, or_false, not_or]
      exact ⟨hbyte (by omega) (by omega), hbyte (by omega) (by omega)⟩
    · split
      · simp only [List.mem_cons, List.not_mem_nil, or_false, not_or]
        exact ⟨hbyte (by omega) (by omega), hbyte (by omega) (by omega), hbyte (by omega) (by omega)⟩
      · simp only [List.mem_cons, List.not_mem_nil, or_false, not_or]
        exact ⟨hbyte (by omega) (by omega), hbyte (by omega) (by omega),
          hbyte (by omega) (by omega), hbyte (by omega) (by omega)⟩

theorem isEmpty_encode (cs : List Char) : (encode cs).isEmpty = cs.isEmpty := by
  cases cs with
  | nil => rfl
  | cons c cs =>
      obtain ⟨b, bs, hbytes, -⟩ := next_encodeChar c []
      rw [encode, List.flatMap_cons, hbytes]
      rfl

end Utf8

open Utf8

theorem endedLines_encode (cs : List Char) : Text.endedLines 0x0a (encode cs) =
    ((Text.endedLines '\n' cs).1.map encode, encode (Text.endedLines '\n' cs).2) := by
  induction cs with
  | nil => rfl
  | cons c cs ih =>
      by_cases hc : c = '\n'
      · subst hc
        have hencode : encode ('\n' :: cs) = 0x0a :: encode cs := rfl
        rw [hencode, Text.endedLines_cons_mark, Text.endedLines_cons_mark, ih]
        rfl
      · have hencode : encode (c :: cs) = encodeChar c ++ encode cs := rfl
        rw [hencode, Text.endedLines_append (notMem_encodeChar hc), ih, Text.endedLines, if_neg hc]
        dsimp only
        cases (Text.endedLines '\n' cs).1 with
        | nil => rfl
        | cons line others => rfl

theorem lines_encode (cs : List Char) :
    Text.lines 0x0a (encode cs) = (Text.lines '\n' cs).map encode := by
  rw [Text.lines, Text.lines, endedLines_encode]
  dsimp only
  rw [isEmpty_encode]
  split
  · rfl
  · rw [List.map_append]
    rfl

/-- Reading a text and reading its bytes come to the same spans or the same fault, with the same
warnings. -/
theorem readBytes_encode (cs : List Char) : readBytes (encode cs) = readText cs := by
  have hlines : (Text.lines 0x0a (encode cs)).map decode = Text.lines '\n' cs := by
    rw [lines_encode, List.map_map]
    exact (List.map_congr_left fun line _ => decode_encode line).trans (List.map_id _)
  rw [readBytes, readText, hlines]

end SpanForest
