import Mathlib.Data.List.Chain
import SpanForest.Json.Strings
import SpanForest.Proofs.Text.Lines
import SpanForest.Proofs.Text.Lowercase

/-!
Texts in which no two halves of surrogate pairs stand together that would make a character. JSON
text can write no other texts: two such escapes are read as the character. Trimming and lowering
keep a text so.
-/

namespace SpanForest

namespace Json

theorem isHighSurrogate_toNat (c : Char) : isHighSurrogate c.toNat = false := by
  rw [isHighSurrogate, Bool.and_eq_false_iff, decide_eq_false_iff_not, decide_eq_false_iff_not]
  have hvalid : c.toNat < 0xd800 ∨ 0xdfff < c.toNat ∧ c.toNat < 0x110000 := c.valid
  omega

theorem isLowSurrogate_toNat (c : Char) : isLowSurrogate c.toNat = false := by
  rw [isLowSurrogate, Bool.and_eq_false_iff, decide_eq_false_iff_not, decide_eq_false_iff_not]
  have hvalid : c.toNat < 0xd800 ∨ 0xdfff < c.toNat ∧ c.toNat < 0x110000 := c.valid
  omega

end Json

open Json

namespace Text

def Apart (p q : CodePoint) : Prop :=
  ¬ (isHighSurrogate p.toNat = true ∧ isLowSurrogate q.toNat = true)

instance (p q : CodePoint) : Decidable (Apart p q) := inferInstanceAs (Decidable (¬ _))

def Joined (t : Text) : Prop := t.IsChain Apart

instance (t : Text) : Decidable t.Joined := inferInstanceAs (Decidable (List.IsChain Apart t))

theorem apart_char_left (c : Char) (q : CodePoint) : Apart (.char c) q :=
  fun h => Bool.false_ne_true ((isHighSurrogate_toNat c).symm.trans h.1)

theorem apart_char_right (p : CodePoint) (c : Char) : Apart p (.char c) :=
  fun h => Bool.false_ne_true ((isLowSurrogate_toNat c).symm.trans h.2)

theorem joined_ofChars_append (cs : List Char) {t : Text} (h : t.Joined) : (ofChars cs ++ t).Joined := by
  induction cs with
  | nil => exact h
  | cons c cs ih => exact List.isChain_cons.2 ⟨fun q _ => apart_char_left c q, ih⟩

theorem joined_ofChars (cs : List Char) : (ofChars cs).Joined :=
  List.append_nil (ofChars cs) ▸ joined_ofChars_append cs .nil

theorem Joined.trim {t : Text} (h : t.Joined) : t.trim.Joined := h.infix ( trimBy_infix _ t)

theorem apart_head?_lowerFrom (before : Text) {p : CodePoint} {t : Text}
    (h : ∀ q ∈ t.head?, Apart p q) : ∀ q ∈ (lowerFrom before t).head?, Apart p q := by
  cases t with
  | nil => exact nofun
  | cons q t =>
      rw [lowerFrom]
      split
      · intro r hr
        obtain rfl := Option.some.inj hr
        exact apart_char_right p _
      · cases q with
        | half n => exact h
        | char c =>
            -- what a character is lowered to starts with a character, which is no half
            obtain ⟨d, rest, hd⟩ := List.exists_cons_of_ne_nil (lowerPoint_ne_nil (.char c))
            intro r hr
            rw [hd] at hr
            obtain rfl := Option.some.inj hr
            have hmem : d ∈ lowerPoint (.char c) := hd ▸ List.mem_cons_self
            obtain ⟨e, -, rfl⟩ := List.mem_map.1 hmem
            exact apart_char_right p e

theorem Joined.lowerFrom (before : Text) {t : Text} (h : t.Joined) : (lowerFrom before t).Joined := by
  induction t generalizing before with
  | nil => exact .nil
  | cons p t ih =>
      obtain ⟨hhead, ht⟩ := List.isChain_cons.1 h
      have hrest := ih (p :: before) ht
      rw [Text.lowerFrom]
      split
      · exact joined_ofChars_append [_] hrest
      · cases p with
        | char c => exact joined_ofChars_append _ hrest
        | half n => exact List.isChain_cons.2 ⟨apart_head?_lowerFrom _ hhead, hrest⟩

theorem Joined.lower {t : Text} (h : t.Joined) : t.lower.Joined := h.lowerFrom []

end Text

end SpanForest
