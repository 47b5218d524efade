import SpanForest.Files.Source
import SpanForest.Text.Utf8

/-!
Files of ASCII characters. They have one byte a character, and however the bytes are cut into pieces
they are decoded to the characters again, since no piece ends within one.
-/

namespace SpanForest

namespace Utf8

def Ascii (cs : List Char) : Prop := ∀ c ∈ cs, c.toNat < 0x80

theorem encodeChar_ascii {c : Char} (h : c.toNat < 0x80) : encodeChar c = [UInt8.ofNat c.toNat] := by
  simp [encodeChar, byteOf, h]

theorem encode_ascii {cs : List Char} (h : Ascii cs) :
    encode cs = cs.map fun c => UInt8.ofNat c.toNat := by
  induction cs with
  | nil => rfl
  | cons c cs ih =>
      have hc := encodeChar_ascii (h c List.mem_cons_self)
      have hrest := ih fun d hd => h d (List.mem_cons_of_mem c hd)
      rw [encode] at hrest ⊢
      rw [List.flatMap_cons, hc, hrest]
      rfl

theorem next_ascii {c : Char} (h : c.toNat < 0x80) (rest : List UInt8) :
    next (UInt8.ofNat c.toNat) rest = .char c 1 := by
  have hbyte : (UInt8.ofNat c.toNat).toNat = c.toNat := by
    rw [UInt8.toNat_ofNat']
    omega
  have hlt : UInt8.ofNat c.toNat < 0x80 := by
    rw [UInt8.lt_iff_toNat_lt, hbyte]
    exact h
  rw [next, if_pos hlt, hbyte, Char.ofNat_toNat]

theorem decodePieceFrom_encode {cs : List Char} (h : Ascii cs) (offset : Nat) :
    decodePieceFrom offset 0 (encode cs) = .ok ⟨cs, []⟩ := by
  rw [encode_ascii h]
  induction cs generalizing offset with
  | nil => rfl
  | cons c cs ih =>
      have hrest := ih (fun d hd => h d (List.mem_cons_of_mem c hd)) (offset + 1)
      rw [List.map_cons, decodePieceFrom, next_ascii (h c List.mem_cons_self)]
      dsimp only
      rw [Nat.sub_self, hrest]
      rfl

end Utf8

namespace ByteSource

open Utf8

theorem cut_encode {cs : List Char} (h : Ascii cs) {count : Nat} (hcount : cs.length ≤ count) :
    ∃ pieces : List (List Char), cut count (encode cs) = pieces.map encode ∧
      (∀ piece ∈ pieces, Ascii piece) ∧ pieces.flatten = cs := by
  induction count generalizing cs with
  | zero =>
      obtain rfl : cs = [] := List.length_eq_zero_iff.1 (Nat.le_zero.1 hcount)
      exact ⟨[], rfl, nofun, rfl⟩
  | succ count ih =>
      cases cs with
      | nil => exact ⟨[], rfl, nofun, rfl⟩
      | cons c cs =>
          have hdrop : Ascii ((c :: cs).drop pieceSize) := fun d hd => h d (List.mem_of_mem_drop hd)
          have htake : Ascii ((c :: cs).take pieceSize) := fun d hd => h d (List.mem_of_mem_take hd)
          obtain ⟨pieces, hcut, hascii, hflatten⟩ := ih hdrop (by
            rw [List.length_drop]
            simp only [List.length_cons, pieceSize] at hcount ⊢
            omega)
          refine ⟨(c :: cs).take pieceSize :: pieces, ?_, List.forall_mem_cons.2 ⟨htake, hascii⟩, ?_⟩
          · have hne : (encode (c :: cs)).isEmpty = false := by
              rw [encode_ascii h]
              rfl
            rw [cut, hne, if_neg Bool.false_ne_true, List.map_cons, ← hcut, encode_ascii h,
              encode_ascii htake, encode_ascii hdrop, List.map_take, List.map_drop]
          · rw [List.flatten_cons, hflatten, List.take_append_drop]

theorem decodeFrom_encode {pieces : List (List Char)} (h : ∀ piece ∈ pieces, Ascii piece) :
    decodeFrom none [] (pieces.map encode) = ⟨pieces.flatten, none⟩ := by
  induction pieces with
  | nil => rfl
  | cons piece pieces ih =>
      have hpiece := decodePieceFrom_encode (h piece List.mem_cons_self) 0
      have hrest := ih fun p hp => h p (List.mem_cons_of_mem piece hp)
      rw [List.map_cons, decodeFrom, List.nil_append, decodePiece, hpiece]
      dsimp only
      rw [hrest]
      rfl

theorem decode_ofBytes_encode {cs : List Char} (h : Ascii cs) :
    (ofBytes (encode cs)).decode = ⟨cs, none⟩ := by
  have hlength : cs.length ≤ (encode cs).length :=
    Nat.le_of_eq (by rw [encode_ascii h, List.length_map])
  obtain ⟨pieces, hcut, hascii, rfl⟩ := cut_encode h hlength
  rw [ofBytes, decode, hcut, decodeFrom_encode hascii]

end ByteSource

end SpanForest
