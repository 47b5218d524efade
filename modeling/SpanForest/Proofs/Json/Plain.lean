import SpanForest.Json.Writer
import SpanForest.Proofs.Json.Numbers

/-!
JSON text as it is written has printable ASCII characters only, so it is one line and one byte a
character.
-/

namespace SpanForest

namespace Text

def isPlain (c : Char) : Bool := decide (0x20 ≤ c.toNat) && decide (c.toNat ≤ 0x7e)

def Plain (cs : List Char) : Prop := ∀ c ∈ cs, isPlain c = true

instance (cs : List Char) : Decidable (Plain cs) :=
  decidable_of_iff (cs.all isPlain = true) List.all_eq_true

theorem Plain.cons {c : Char} {cs : List Char} (hc : isPlain c = true) (h : Plain cs) :
    Plain (c :: cs) := List.forall_mem_cons.2 ⟨hc, h⟩

theorem Plain.append {cs ds : List Char} (hcs : Plain cs) (hds : Plain ds) : Plain (cs ++ ds) :=
  List.forall_mem_append.2 ⟨hcs, hds⟩

theorem Plain.notMem {cs : List Char} (h : Plain cs) {c : Char} (hc : isPlain c = false) : c ∉ cs :=
  fun hmem => Bool.false_ne_true (hc.symm.trans (h c hmem))

theorem plain_hexDigits (width n : Nat) : Plain (hexDigits width n) := by
  have hall : ∀ d < 16, isPlain (hexAlphabet.getD d '0') = true := by decide
  induction width generalizing n with
  | zero => exact nofun
  | succ width ih => exact (ih _).append (.cons (hall _ (Nat.mod_lt n (by decide))) nofun)

end Text

open Text

theorem isPlain_of_isDigit {c : Char} (h : Json.isDigit c = true) : isPlain c = true := by
  simp only [Json.isDigit, Bool.and_eq_true, decide_eq_true_eq] at h
  have hlow : 48 ≤ c.toNat := h.1
  have hhigh : c.toNat ≤ 57 := h.2
  simp only [isPlain, Bool.and_eq_true, decide_eq_true_eq]
  omega

theorem Numeral.plain_digits (n : Nat) : Plain (digits n) :=
  fun _ hc => isPlain_of_isDigit (Json.isDigit_of_mem_digits hc)

theorem Numeral.plain_write (n : Int) : Plain (Numeral.write n) := by
  cases n with
  | ofNat n => exact plain_digits n
  | negSucc n => exact .cons (by decide) (plain_digits _)

namespace Binary64

open Numeral

theorem plain_zeroText (n : Int) : Plain (zeroText n) := by
  intro c hc
  rw [List.eq_of_mem_replicate hc]
  decide

theorem plain_exponentText (e : Int) : Plain (exponentText e) := by
  refine .cons (by split <;> decide) ?_
  split
  · exact .cons (by decide) (plain_digits _)
  · exact plain_digits _

theorem plain_decimalText (d : Decimal) : Plain (decimalText d) := by
  have htake (n : Nat) : Plain ((digits d.digits).take n) :=
    fun c hc => plain_digits _ c (List.mem_of_mem_take hc)
  have hdrop (n : Nat) : Plain ((digits d.digits).drop n) :=
    fun c hc => plain_digits _ c (List.mem_of_mem_drop hc)
  unfold decimalText
  dsimp only
  split
  · unfold pointText
    split
    · exact .append (.cons (by decide) (.cons (by decide) (plain_zeroText _))) (plain_digits _)
    · split
      · exact .append (.append (plain_digits _) (plain_zeroText _)) (by decide)
      · exact .append (htake _) (.cons (by decide) (hdrop _))
  · refine .append (.append (htake 1) ?_) (.cons (by decide) (plain_exponentText _))
    split
    · exact nofun
    · exact .cons (by decide) (hdrop 1)

theorem plain_textWith {infinity undefined : String} (hinfinity : Plain infinity.toList)
    (hundefined : Plain undefined.toList) (x : Binary64) : Plain (x.textWith infinity undefined) := by
  have hsign (negative : Bool) : Plain (if negative then ['-'] else []) := by
    cases negative
    · exact nofun
    · decide
  cases x with
  | nan => exact hundefined
  | infinite negative => exact .append (hsign negative) hinfinity
  | finite negative significand exponent =>
      refine .append (hsign negative) ?_
      unfold magnitudeText
      split
      · decide
      · exact plain_decimalText _

end Binary64

namespace Json

theorem plain_unitEscape (n : Nat) : Plain (unitEscape n) :=
  .cons (by decide) (.cons (by decide) (plain_hexDigits 4 n))

theorem plain_escapeChar (c : Char) : Plain (escapeChar c) := by
  unfold escapeChar
  iterate 7
    split
    · decide
  split
  · next h => exact .cons (by simpa [isPlain] using h) nofun
  split
  · exact plain_unitEscape _
  · exact .append (plain_unitEscape _) (plain_unitEscape _)

theorem plain_escapePoint (p : CodePoint) : Plain (escapePoint p) := by
  cases p with
  | char c => exact plain_escapeChar c
  | half n => exact plain_unitEscape _

theorem plain_writeString (s : Text) : Plain (writeString s) := by
  refine .append (.cons (by decide) fun c hc => ?_) (by decide)
  obtain ⟨p, -, hc⟩ := List.mem_flatMap.1 hc
  exact plain_escapePoint p c hc

mutual

theorem plain_write : ∀ v : Value, Plain (write v)
  | .null => by decide
  | .bool b => by cases b <;> decide
  | .int n => Numeral.plain_write n
  | .float x => x.plain_textWith (by decide) (by decide)
  | .string s => plain_writeString s
  | .array items => .append (.cons (by decide) (plain_writeItems items)) (by decide)
  | .object members => .append (.cons (by decide) (plain_writeMembers members)) (by decide)

theorem plain_writeItems : ∀ items : List Value, Plain (writeItems items)
  | [] => nofun
  | [x] => plain_write x
  | x :: y :: rest => .append (plain_write x) (.cons (by decide) (plain_writeItems (y :: rest)))

theorem plain_writeMembers : ∀ members : List (Text × Value), Plain (writeMembers members)
  | [] => nofun
  | [(name, x)] => .append (plain_writeString name) (.cons (by decide) (plain_write x))
  | (name, x) :: y :: rest =>
      .append (.append (plain_writeString name) (.cons (by decide) (plain_write x)))
        (.cons (by decide) (plain_writeMembers (y :: rest)))

end

end Json

end SpanForest
