/-!
Texts: sequences of code points. A code point is a character or half of a surrogate pair; JSON text can
name such a half alone, and strings keep it. A text that holds a half has no encoding.
-/

namespace SpanForest

/-- A character, or the half of a surrogate pair whose code is `0xd800 + n`. -/
inductive CodePoint where
  | char (c : Char)
  | half (n : Fin 0x800)
  deriving DecidableEq

namespace CodePoint

def firstHalf : Nat := 0xd800

def toNat : CodePoint → Nat
  | .char c => c.toNat
  | .half n => firstHalf + n

instance : LT CodePoint := ⟨fun p q => p.toNat < q.toNat⟩

instance (p q : CodePoint) : Decidable (p < q) := inferInstanceAs (Decidable (p.toNat < q.toNat))

def isHalf : CodePoint → Bool
  | .char _ => false
  | .half _ => true

/-- A test of characters. No half meets it. -/
def meets (test : Char → Bool) : CodePoint → Bool
  | .char c => test c
  | .half _ => false

end CodePoint

abbrev Text := List CodePoint

namespace Text

def ofChars (cs : List Char) : Text := cs.map .char

def ofString (s : String) : Text := ofChars s.toList

instance : Coe String Text := ⟨ofString⟩

def join (parts : List Text) : Text := parts.flatten

def hasHalf (t : Text) : Bool := t.any CodePoint.isHalf

def chars? : Text → Option (List Char)
  | [] => some []
  | .char c :: rest => (chars? rest).map (c :: ·)
  | .half _ :: _ => none

theorem chars?_eq_some_iff (t : Text) (cs : List Char) : chars? t = some cs ↔ t = ofChars cs := by
  induction t generalizing cs with
  | nil => cases cs <;> simp [chars?, ofChars]
  | cons p rest ih =>
      cases p with
      | half n => cases cs <;> simp [chars?, ofChars]
      | char c =>
          cases cs with
          | nil => simp [chars?, ofChars]
          | cons c' cs' =>
              simp only [chars?, Option.map_eq_some_iff, ih, ofChars, List.map_cons, List.cons.injEq,
                CodePoint.char.injEq]
              grind

theorem chars?_ofChars (cs : List Char) : chars? (ofChars cs) = some cs := by
  rw [chars?_eq_some_iff]

theorem chars?_eq_none_iff (t : Text) : chars? t = none ↔ hasHalf t = true := by
  induction t with
  | nil => simp [chars?, hasHalf]
  | cons p rest ih =>
      cases p with
      | half n => simp [chars?, hasHalf, CodePoint.isHalf]
      | char c => simpa [chars?, hasHalf, CodePoint.isHalf] using ih

theorem ofChars_inj {cs ds : List Char} : ofChars cs = ofChars ds ↔ cs = ds :=
  List.map_inj_right fun _ _ h => CodePoint.char.inj h

@[simp]
theorem ofString_inj {s t : String} : ofString s = ofString t ↔ s = t := by
  rw [ofString, ofString, ofChars_inj, String.toList_inj]

@[simp]
theorem ofString_beq (s t : String) : (ofString s == ofString t) = (s == t) := by
  rw [Bool.eq_iff_iff, beq_iff_eq, beq_iff_eq, ofString_inj]

theorem ofChars_append (cs ds : List Char) : ofChars (cs ++ ds) = ofChars cs ++ ofChars ds := by
  simp [ofChars]

end Text

end SpanForest
